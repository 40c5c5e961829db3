import Mathlib.Order.Defs.Unbundled
import Residiuum.Cluster.Raft

/-!
# The peers of a group

* **`ensureLeaderPreferring_leader`**: a leader that is reported is online.
-/

namespace Residiuum.Cluster

open Function

variable {g g' g'' : PartitionRaft} {v : NodeId} {p p' p'' : RaftPeer}

namespace PartitionRaft

@[simp] theorem setPeer_self (g : PartitionRaft) (v : NodeId) (p : RaftPeer) :
    (g.setPeer v p).peers v = some p := update_self ..

theorem setPeer_of_ne (g : PartitionRaft) {v w : NodeId} (p : RaftPeer) (h : w ≠ v) :
    (g.setPeer v p).peers w = g.peers w := update_of_ne h ..

@[simp] theorem setPeer_voters (g : PartitionRaft) (v : NodeId) (p : RaftPeer) :
    (g.setPeer v p).voters = g.voters := rfl

@[simp] theorem flushPeer_voters (g : PartitionRaft) : g.flushPeer.2.voters = g.voters := rfl

theorem modifyPeer_eq {f : RaftPeer → RaftPeer} (h : g.peers v = some p) :
    g.modifyPeer v f = g.setPeer v (f p) := by
  rw [modifyPeer, h]

theorem setPeer_same (h : g.peers v = some p) : g.setPeer v p = g := by
  rw [setPeer, ← h, update_eq_self]

theorem setPeer_setPeer (g : PartitionRaft) (v : NodeId) (p p' : RaftPeer) :
    (g.setPeer v p).setPeer v p' = g.setPeer v p' := by
  simp [setPeer]

end PartitionRaft

variable {t : ℕ} {online : List NodeId}

namespace PartitionRaft

/-! ## Leaders are online -/

variable {w : NodeId}

theorem countVotes_leader {votes t' : ℕ}
    (h : (g.countVotes w t votes).1 = .ok (v, t')) : v = w := by
  unfold countVotes at h
  split at h
  · exact (congrArg Prod.fst (Except.ok.inj h)).symm
  · cases h

theorem elect_leader (h : (g.elect w online).1 = .ok (v, t)) : v = w := by
  unfold elect at h
  split at h
  · cases h
  split at h
  · cases h
  split at h
  · cases h
  dsimp only at h
  split at h
  · cases h
  split at h
  · cases h
  · exact countVotes_leader h

theorem electFirst_leader {cands : List NodeId} {e : ElectError}
    (h : (electFirst online cands e g).1 = .ok (v, t)) : v ∈ cands := by
  induction cands generalizing e g with
  | nil => cases h
  | cons c cands ih =>
    unfold electFirst at h
    split at h
    · rename_i heq
      have hv : v = c := elect_leader (by rw [heq]; exact h)
      rw [hv]
      exact List.mem_cons_self
    · exact List.mem_cons_of_mem c (ih h)

theorem ensureLeaderPreferring_leader {preferred : Option NodeId}
    (h : (g.ensureLeaderPreferring online preferred).1 = .ok (v, t)) : v ∈ online := by
  have hamong : ∀ g : PartitionRaft, (g.electAmong online preferred).1 = .ok (v, t) →
      v ∈ online := by
    intro g h
    unfold electAmong at h
    dsimp only at h
    split at h
    · cases h
    · have hv := (DistinctLib.sortBy_perm _ _).mem_iff.mp (electFirst_leader h)
      exact List.mem_of_mem_filter hv
  unfold ensureLeaderPreferring at h
  split at h
  · split at h
    · rename_i hon
      cases h
      exact hon
    · exact hamong _ h
  · exact hamong _ h

end PartitionRaft

end Residiuum.Cluster
