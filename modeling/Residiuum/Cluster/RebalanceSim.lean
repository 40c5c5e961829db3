import Residiuum.Cluster.RaftGroup
import Residiuum.Cluster.Rebalance

/-!
# Changing voters in the protocol

Streaming a log to a node without a vote and putting other voters in place are changes of the
replication protocol, as long as the new voters have caught up.

* `Sim.streamLogTo`: streaming the log of the leader or of an old replica.
-/

namespace Residiuum.Cluster

open List Option

open RaftLib (Change Inv Majority Moves Node State Step Steps)
open PartitionRaft

variable {g : PartitionRaft} {A A' : State NodeId LogEntry} {v w leader dest : NodeId}
  {p : RaftPeer}

/-! ## Peers -/

theorem ensurePeer_of_some (h : g.peers v = some p) : g.ensurePeer v = g := by
  rw [ensurePeer, h]

theorem ensurePeer_of_none (h : g.peers v = none) : g.ensurePeer v = g.setPeer v (.new v) := by
  rw [ensurePeer, h]

theorem ensurePeer_voters (g : PartitionRaft) (v : NodeId) :
    (g.ensurePeer v).voters = g.voters := by
  unfold ensurePeer
  split <;> rfl

theorem ensurePeer_ne_none (g : PartitionRaft) (v : NodeId) : (g.ensurePeer v).peers v ≠ none := by
  cases hp : g.peers v with
  | none =>
    rw [ensurePeer_of_none hp, setPeer_self]
    exact some_ne_none _
  | some p =>
    rw [ensurePeer_of_some hp, hp]
    exact some_ne_none _

theorem ensurePeer_peers (h : g.peers w = some p) (v : NodeId) :
    (g.ensurePeer v).peers w = some p := by
  cases hp : g.peers v with
  | none =>
    have hne : w ≠ v := by
      rintro rfl
      rw [hp] at h
      cases h
    rw [ensurePeer_of_none hp, setPeer_of_ne _ _ hne, h]
  | some q => rw [ensurePeer_of_some hp, h]

namespace Sim

theorem ensurePeer (hs : Sim g A) (v : NodeId) : Sim (g.ensurePeer v) A := by
  cases hp : g.peers v with
  | some p =>
    rw [ensurePeer_of_some hp]
    exact hs
  | none =>
    have hn : A.node v = (RaftPeer.new v).node := by
      rw [hs.node v, PartitionRaft.node, hp]
      rfl
    have hact : A.act v (RaftPeer.new v).node A.toHistory = A := by rw [← hn, act_self]
    have hrole : (RaftPeer.new v).role ≠ .leader := RaftLib.Role.noConfusion
    rw [ensurePeer_of_none hp]
    have hsim : Sim (g.setPeer v (.new v)) (A.act v (RaftPeer.new v).node A.toHistory) :=
      hs.act (by rw [hact]; exact hs.inv) rfl hs.indexed (fun _ _ _ ha => ha)
        fun hr => absurd hr hrole
    rwa [hact] at hsim

theorem ensurePeers (hs : Sim g A) (l : List NodeId) :
    Sim (l.foldl PartitionRaft.ensurePeer g) A ∧
      (l.foldl PartitionRaft.ensurePeer g).voters = g.voters ∧
      ∀ v, v ∈ l ∨ g.peers v ≠ none → (l.foldl PartitionRaft.ensurePeer g).peers v ≠ none := by
  induction l generalizing g with
  | nil => exact ⟨hs, rfl, fun v hv => hv.resolve_left (not_mem_nil)⟩
  | cons u l ih =>
    obtain ⟨hs', hvoters, hpeers⟩ := ih (hs.ensurePeer u)
    refine ⟨hs', hvoters.trans (ensurePeer_voters g u), fun v hv => hpeers v ?_⟩
    obtain hv | hv := hv
    · obtain rfl | hv := mem_cons.mp hv
      · exact .inr (ensurePeer_ne_none g v)
      · exact .inl hv
    · obtain ⟨p, hp⟩ := ne_none_iff_exists'.mp hv
      rw [ensurePeer_peers hp]
      exact .inr (some_ne_none p)

/-! ## Leaders -/

theorem leader_unique (hs : Sim g A) (hi : Idle A) (hv : (A.node v).role = .leader)
    (hw : (A.node w).role = .leader) : v = w := by
  obtain ⟨-, hwv, -⟩ := (hs.inv.node v).leader hv
  obtain ⟨-, hww, -⟩ := (hs.inv.node w).leader hw
  have hle : (A.node w).term ≤ (A.node v).term := hi.latest v hv _ (by simp [hww])
  have hge : (A.node v).term ≤ (A.node w).term := hi.latest w hw _ (by simp [hwv])
  rw [le_antisymm hle hge] at hww
  exact Option.some.inj (hwv.symm.trans hww)

end Sim

/-- A state that differs only in who votes and leads. -/
structure SameLogs (A A' : State NodeId LogEntry) : Prop where
  winner : A'.winner = A.winner
  committed : A'.committed = A.committed
  node : ∀ v, (A'.node v).term = (A.node v).term ∧ (A'.node v).log = (A.node v).log

namespace Sim

theorem stepDownOutside (hs : Sim g A) (hi : Idle A) (g' : PartitionRaft) (voters : List NodeId)
    (hpeers : g'.peers = fun v => (g.peers v).map fun p =>
      if p.role = .leader ∧ v ∉ voters then { p with role := .follower } else p)
    (hvoters : g'.voters = g.voters) :
    ∃ A', Calm A A' ∧ Sim g' A' ∧ SameLogs A A' ∧
      ∀ v, (A'.node v).role = .leader → v ∈ voters := by
  by_cases hlead : ∃ v p, g.peers v = some p ∧ p.role = .leader ∧ v ∉ voters
  · obtain ⟨v, p, hp, hr, hv⟩ := hlead
    have hn : A.node v = p.node := hs.node_of_peer hp
    obtain ⟨hcalm, hs'⟩ := hs.stepDown hp
    have hpeers' : g'.peers = (g.setPeer v { p with role := .follower }).peers := by
      rw [hpeers]
      funext w
      by_cases hw : w = v
      · subst hw
        rw [setPeer_self, hp, map_some, if_pos ⟨hr, hv⟩]
      rw [setPeer_of_ne _ _ hw]
      cases hq : g.peers w with
      | none => rfl
      | some q =>
        -- the other peers do not lead
        have hnot : q.role ≠ .leader := fun hqr => hw (hs.leader_unique hi
          (by rw [hs.node_of_peer hq]; exact hqr) (by rw [hn]; exact hr))
        rw [map_some, if_neg fun h => hnot h.1]
    refine ⟨_, hcalm, hs'.congr hpeers' hvoters, ⟨rfl, rfl, fun w => ?_⟩, fun w hw => ?_⟩
    · by_cases hwv : w = v
      · rw [hwv, A.act_node_self, hn]
        exact ⟨rfl, rfl⟩
      · rw [A.act_node_of_ne _ _ hwv]
        exact ⟨rfl, rfl⟩
    · by_cases hwv : w = v
      · rw [hwv, A.act_node_self] at hw
        cases hw
      · rw [A.act_node_of_ne _ _ hwv] at hw
        exact absurd (hs.leader_unique hi hw (by rw [hn]; exact hr)) hwv
  · have hpeers' : g'.peers = g.peers := by
      rw [hpeers]
      funext w
      cases hq : g.peers w with
      | none => rfl
      | some q => rw [map_some, if_neg fun h => hlead ⟨w, q, hq, h⟩]
    refine ⟨A, .refl A, hs.congr hpeers' hvoters, ⟨rfl, rfl, fun _ => ⟨rfl, rfl⟩⟩, fun w hw => ?_⟩
    obtain ⟨q, hq, hr⟩ := hs.leader_peer hw
    by_contra hnot
    exact hlead ⟨w, q, hq, hr, hnot⟩

variable {voters : List NodeId} {g' : PartitionRaft}

theorem reconfigure (hs : Sim g A) (hi : Idle A) (g' : PartitionRaft)
    (hrole : ∀ v, (A.node v).role = .leader → v ∈ voters)
    (hterm : ∀ v ∈ voters, ∀ t, A.winner t ≠ none → t ≤ (A.node v).term)
    (hlog : ∀ t q, A.committed t q → Majority voters fun v => q <+: (A.node v).log)
    (hpeers : g'.peers = g.peers) (hvoters : g'.voters = voters)
    (hknown : ∀ v ∈ voters, g.peers v ≠ none) :
    Change A (A.reconfigure voters) ∧ Sim g' (A.reconfigure voters) := by
  have hchange : Change A (A.reconfigure voters) := by
    refine .reconfigure voters (fun v => ?_) hterm hlog
    cases hr : (A.node v).role with
    | follower => exact .inl rfl
    | candidate => exact absurd hr (hi.quiet v)
    | leader => exact .inr ⟨rfl, hrole v hr⟩
  refine ⟨hchange, hchange.inv hs.inv, hvoters.symm, fun v => ?_, fun v hv => ?_, hs.indexed,
    fun v p hp => hs.id v p (hpeers ▸ hp), fun v p hp hr => ?_⟩
  · rw [PartitionRaft.node, hpeers]
    exact hs.node v
  · rw [hpeers]
    exact hknown v (hvoters ▸ hv)
  · have hl := hs.leader v p (hpeers ▸ hp) hr
    exact ⟨hl.vote, hl.next, fun f m hm => (hl.matched f m hm).imp_right fun h i hi hle =>
      .inl (h i hi hle), fun i hi hle => .inl (hl.own i hi hle)⟩

/-- **Other voters take over**, provided that they have reached every term that was won and that a
majority of them has every committed prefix. -/
theorem switch (hs : Sim g A) (hi : Idle A) (g' : PartitionRaft)
    (hterm : ∀ v ∈ voters, ∀ t, A.winner t ≠ none → t ≤ (A.node v).term)
    (hlog : ∀ t q, A.committed t q → Majority voters fun v => q <+: (A.node v).log)
    (hpeers : g'.peers = (voters.foldl PartitionRaft.ensurePeer g).peers)
    (hvoters : g'.voters = voters) :
    ∃ A', Moves LogEntry.term A A' ∧ Sim g'.stepDownOutside A' ∧ Idle A' ∧ SameLogs A A' := by
  obtain ⟨hs₁, -, hknown₁⟩ := hs.ensurePeers voters
  obtain ⟨A₂, hcalm, hs₂, hsame, hrole⟩ := hs₁.stepDownOutside hi
    { voters.foldl PartitionRaft.ensurePeer g with peers := g'.stepDownOutside.peers } voters
    (by rw [← hpeers, ← hvoters]; rfl) rfl
  have hidle : Idle A₂ := hcalm.idle hi
  obtain ⟨hchange, hs₃⟩ := hs₂.reconfigure hidle g'.stepDownOutside hrole
    (fun v hv t ht => by
      rw [(hsame.node v).1]
      exact hterm v hv t (hsame.winner ▸ ht))
    (fun t q hq => (hlog t q (hsame.committed ▸ hq)).mono fun v _ h => by rwa [(hsame.node v).2])
    rfl hvoters fun v hv => by
      show (g'.peers v).map _ ≠ none
      rw [hpeers]
      simpa using hknown₁ v (.inl hv)
  exact ⟨_, hcalm.steps.moves.tail (.inr hchange), hs₃, ⟨hidle.quiet, hidle.latest⟩,
    ⟨hsame.winner, hsame.committed, hsame.node⟩⟩

/-- The node that a log is streamed from has a vote, and nobody else leads. -/
structure Source (A : State NodeId LogEntry) (v : NodeId) : Prop where
  voter : v ∈ A.voters
  only : ∀ w, (A.node w).role = .leader → w = v

theorem takeLog (hs : Sim g A) (hsource : Source A leader) (hp : g.peers leader = some p)
    {q : RaftPeer} (hq : g.peers dest = some q) (hd : dest ∉ g.voters) :
    ∃ A', Change A A' ∧ Sim (g.setPeer dest (takeLog p q)) A' ∧
      (∀ w, w ≠ dest → A'.node w = A.node w) ∧ (A'.node dest).role = .follower ∧
      A'.winner = A.winner ∧ A'.committed = A.committed ∧
      (p.role = .leader → ∀ i, A'.acked dest p.currentTerm (p.log.take i)) := by
  have hn : A.node leader = p.node := hs.node_of_peer hp
  have hchange := Change.stream (s := A) leader dest (by rw [hs.voters]; exact hd)
  rw [hn] at hchange
  generalize hh : A.setAcked dest (fun t l => p.node.role = .leader ∧ t = p.node.term ∧
    l <+: p.node.log) = h at hchange
  have hself : ∀ t l, h.acked dest t l ↔ p.node.role = .leader ∧ t = p.node.term ∧
      l <+: p.node.log := by
    intro t l
    rw [← hh]
    have hacked : (A.setAcked dest fun t l => p.node.role = .leader ∧ t = p.node.term ∧
      l <+: p.node.log).acked dest = _ := Function.update_self ..
    rw [hacked]
  have hother : ∀ w t l, w ≠ dest → (h.acked w t l ↔ A.acked w t l) := by
    intro w t l hw
    rw [← hh]
    exact iff_of_eq (congrFun (congrFun (Function.update_of_ne hw ..) t) l)
  have hrest : h.history = A.history ∧ h.winner = A.winner ∧ h.committed = A.committed := by
    rw [← hh]
    exact ⟨rfl, rfl, rfl⟩
  refine ⟨_, hchange, ?_, fun w hw => A.act_node_of_ne _ _ hw, ?_, hrest.2.1, hrest.2.2,
    fun hr i => (hself _ _).mpr ⟨hr, rfl, take_prefix _ _⟩⟩
  · refine hs.actLeaders (hchange.inv hs.inv) (hs.id dest q hq)
      (fun t => by rw [hrest.1]; exact hs.indexed t) (fun w x hw hx hr => ?_) fun hr => ?_
    · -- only the source leads, and it knows that the destination has its log
      obtain rfl : w = leader := hsource.only w (by rw [hs.node_of_peer hx]; exact hr)
      obtain rfl : x = p := Option.some.inj (hx.symm.trans hp)
      have hl := hs.leader w x hx hr
      refine ⟨hl.vote, hl.next, fun f m hm => ?_, fun i hi hle =>
        (hother _ _ _ hw).mpr (hl.own i hi hle)⟩
      refine (hl.matched f m hm).imp_right fun hacked i hi hle => ?_
      by_cases hf : f = dest
      · rw [hf]
        exact (hself _ _).mpr ⟨hr, rfl, take_prefix _ _⟩
      · exact (hother _ _ _ hf).mpr (hacked i hi hle)
    · cases hr
  · rw [A.act_node_self]

theorem streamLogTo (hs : Sim g A) (hi : Idle A) (hsource : Source A leader) (hd : dest ∉ g.voters)
    {n : ℕ} (h : g.streamLogTo leader dest = (n, g')) :
    g'.voters = g.voters ∧ ∃ A', Moves LogEntry.term A A' ∧ Sim g' A' ∧ Idle A' ∧
      Source A' leader ∧ A'.winner = A.winner ∧ A'.committed = A.committed := by
  have hs₁ := hs.ensurePeer dest
  have hv₁ := ensurePeer_voters g dest
  obtain ⟨q, hq⟩ := ne_none_iff_exists'.mp (ensurePeer_ne_none g dest)
  have hleader : leader ∈ (g.ensurePeer dest).voters := by
    rw [← hs₁.voters]
    exact hsource.voter
  obtain ⟨p, hp⟩ := ne_none_iff_exists'.mp (hs₁.known leader hleader)
  have hne : leader ≠ dest := fun heq => hd (heq ▸ hv₁ ▸ hleader)
  obtain ⟨A', hchange, hs₂, hnode, hrole, hwinner, hcommitted, hacked⟩ :=
    hs₁.takeLog hsource hp hq (hv₁ ▸ hd)
  have hlead : ∀ w, (A'.node w).role = .leader →
      (A.node w).role = .leader ∧ A'.node w = A.node w := by
    intro w hw
    by_cases hwd : w = dest
    · rw [hwd, hrole] at hw
      cases hw
    · exact ⟨hnode w hwd ▸ hw, hnode w hwd⟩
  have hidle : Idle A' := by
    refine ⟨fun w hw => ?_, fun w hw t ht => ?_⟩
    · by_cases hwd : w = dest
      · rw [hwd, hrole] at hw
        cases hw
      · exact hi.quiet w (hnode w hwd ▸ hw)
    · obtain ⟨hr, heq⟩ := hlead w hw
      rw [heq]
      exact hi.latest w hr t (hwinner ▸ ht)
  have hsource' : Source A' leader := by
    refine ⟨?_, fun w hw => hsource.only w (hlead w hw).1⟩
    rw [hs₂.voters]
    exact hleader
  have hp₂ : ((g.ensurePeer dest).setPeer dest (PartitionRaft.takeLog p q)).peers leader = some p :=
    (setPeer_of_ne _ _ hne).trans hp
  unfold PartitionRaft.streamLogTo at h
  dsimp only at h
  rw [hp] at h
  dsimp only at h
  rw [modifyPeer_eq hq, modifyPeer_eq hp₂] at h
  refine ⟨?_, A', .single (.inr hchange), ?_, hidle, hsource', hwinner, hcommitted⟩
  · rw [← (Prod.mk.inj h).2]
    split <;> exact hv₁
  · rw [← (Prod.mk.inj h).2]
    by_cases hr : p.role = .leader
    · rw [if_pos hr, if_pos hr, RaftPeer.lastLogIndex, (hs₁.indexed_log hp).lastIndex_eq]
      exact hs₂.setMatch hp₂ hr le_rfl fun i _ _ => hacked hr i
    · rw [if_neg hr]
      exact hs₂

theorem streamAll (hs : Sim g A) (hi : Idle A) (hsource : Source A leader) {dests : List NodeId}
    (hd : ∀ d ∈ dests, d ∉ g.voters) {m n : ℕ}
    (h : RebalanceState.streamAll leader dests m g = (n, g')) :
    g'.voters = g.voters ∧ ∃ A', Moves LogEntry.term A A' ∧ Sim g' A' ∧ Idle A' ∧
      A'.winner = A.winner ∧ A'.committed = A.committed := by
  induction dests generalizing g A m with
  | nil =>
    cases h
    exact ⟨rfl, A, .refl, hs, hi, rfl, rfl⟩
  | cons d dests ih =>
    unfold RebalanceState.streamAll at h
    obtain ⟨⟨k, g₁⟩, hstream⟩ : ∃ r, g.streamLogTo leader d = r := ⟨_, rfl⟩
    rw [hstream] at h
    obtain ⟨hvoters₁, A₁, hmoves₁, hs₁, hi₁, hsource₁, hwinner₁, hcommitted₁⟩ :=
      hs.streamLogTo hi hsource (hd d mem_cons_self) hstream
    obtain ⟨hvoters, A', hmoves, hs', hi', hwinner, hcommitted⟩ := ih hs₁ hi₁ hsource₁
      (fun x hx => hvoters₁ ▸ hd x (mem_cons_of_mem d hx)) h
    exact ⟨hvoters.trans hvoters₁, A', hmoves₁.trans hmoves, hs', hi',
      hwinner.trans hwinner₁, hcommitted.trans hcommitted₁⟩

end Sim

end Residiuum.Cluster
