import Mathlib.Logic.Function.Basic
import Residiuum.Lib.Raft.Log

/-!
# The log replication protocol

Nodes vote at most once a term, a candidate with the votes of a majority leads its term, a leader
appends entries and the other nodes take over prefixes of its log, and a prefix that ends in an
entry of the leader's term is committed once a majority has acknowledged it. The state keeps what
has happened beside the state of the nodes: who won a term and with which log, what its log has
been, who granted which ballot holding which log, and what was acknowledged and committed.
-/

namespace RaftLib

/-- Roles of a node. -/
inductive Role where
  | follower
  | candidate
  | leader
  deriving DecidableEq, Repr

/-- The state of a node. -/
structure Node (N E : Type) where
  term : ℕ
  vote : Option N
  role : Role
  log : List E
  commit : ℕ

/-- What has happened in a group. -/
structure History (N E : Type) where
  /-- The winner of a term. -/
  winner : ℕ → Option N
  /-- The log with which a term was won. -/
  base : ℕ → List E
  /-- The log that the leader of a term has had. -/
  history : ℕ → List E
  /-- A node granted its vote of a term to a candidate while it held a log. -/
  ballot : N → ℕ → N → List E → Prop
  /-- A node acknowledged a prefix to the leader of a term. -/
  acked : N → ℕ → List E → Prop
  /-- The leader of a term committed a prefix. -/
  committed : ℕ → List E → Prop

/-- The state of a group, with what has happened in it. -/
structure State (N E : Type) extends History N E where
  voters : List N
  node : N → Node N E

variable {N E : Type} [DecidableEq N] {τ : E → ℕ}

namespace History

def addBallot (h : History N E) (v : N) (t : ℕ) (c : N) (l : List E) : History N E :=
  { h with ballot := fun v' t' c' l' => h.ballot v' t' c' l' ∨ v' = v ∧ t' = t ∧ c' = c ∧ l' = l }

def addAcked (h : History N E) (v : N) (t : ℕ) (l : List E) : History N E :=
  { h with acked := fun v' t' p => h.acked v' t' p ∨ v' = v ∧ t' = t ∧ p <+: l }

def addWinner (h : History N E) (c : N) (t : ℕ) (l : List E) : History N E :=
  { h with
    winner := Function.update h.winner t (some c)
    base := Function.update h.base t l
    history := Function.update h.history t l }

/-- The log of the leader of a term has become longer. -/
def setHistory (h : History N E) (t : ℕ) (l : List E) : History N E :=
  { h with history := Function.update h.history t l }

/-- What a node acknowledged is forgotten. -/
def setAcked (h : History N E) (v : N) (A : ℕ → List E → Prop) : History N E :=
  { h with acked := Function.update h.acked v A }

def addCommitted (h : History N E) (t : ℕ) (p : List E) : History N E :=
  { h with committed := fun t' q => h.committed t' q ∨ t' = t ∧ q = p }

end History

/-- A node changes, and something happens. -/
def State.act (s : State N E) (v : N) (n : Node N E) (h : History N E) : State N E :=
  { toHistory := h, voters := s.voters, node := Function.update s.node v n }

@[simp] theorem State.act_node_self (s : State N E) (v : N) (n : Node N E) (h : History N E) :
    (s.act v n h).node v = n := Function.update_self ..

theorem State.act_node_of_ne (s : State N E) {v w : N} (n : Node N E) (h : History N E)
    (hw : w ≠ v) : (s.act v n h).node w = s.node w := Function.update_of_ne hw ..

/-- Other voters take over; what they hold of the committed prefixes counts as acknowledged. -/
def State.reconfigure (s : State N E) (voters : List N) : State N E :=
  { s with
    voters := voters
    ballot := fun _ _ _ _ => False
    acked := fun v t p => s.acked v t p ∨ v ∈ voters ∧ s.committed t p ∧ p <+: (s.node v).log }

/-- No term was ever won and every log is empty. -/
def State.init (voters : List N) : State N E where
  voters := voters
  node _ := ⟨0, none, .follower, [], 0⟩
  winner _ := none
  base _ := []
  history _ := []
  ballot _ _ _ _ := False
  acked _ _ _ := False
  committed _ _ := False

variable (τ) in
/-- What can happen. -/
inductive Step : State N E → State N E → Prop where
  /-- A node follows: its term may rise, and its vote of a term it stays in is kept, was free, or
  goes to the winner of the term. -/
  | yield {s : State N E} (v : N) (n : Node N E) (hterm : (s.node v).term ≤ n.term)
      (hrole : n.role = .follower) (hlog : n.log = (s.node v).log)
      (hcommit : n.commit = (s.node v).commit)
      (hvote : n.term = (s.node v).term → (s.node v).vote = none ∨ n.vote = (s.node v).vote ∨
        ∃ c, s.winner n.term = some c ∧ n.vote = some c) :
      Step s (s.act v n s.toHistory)
  /-- A voter starts an election and votes for itself. -/
  | timeout {s : State N E} (c : N) (hc : c ∈ s.voters) :
      Step s (s.act c
        { s.node c with term := (s.node c).term + 1, vote := some c, role := .candidate }
        (s.addBallot c ((s.node c).term + 1) c (s.node c).log))
  /-- A voter grants its vote to a candidate whose log is at least as up to date as its own. -/
  | grant {s : State N E} (v c : N) (hv : v ∈ s.voters) (hne : v ≠ c)
      (hc : (s.node c).role = .candidate) (hterm : (s.node v).term = (s.node c).term)
      (hvote : (s.node v).vote = none ∨ (s.node v).vote = some c)
      (hup : UpToDate τ (s.node c).log (s.node v).log) :
      Step s (s.act v { s.node v with vote := some c }
        (s.addBallot v (s.node c).term c (s.node v).log))
  /-- A candidate with the ballots of a majority leads its term. -/
  | win {s : State N E} (c : N) (hc : (s.node c).role = .candidate)
      (hq : Majority s.voters fun v => ∃ l, s.ballot v (s.node c).term c l) :
      Step s (s.act c { s.node c with role := .leader }
        ((s.addWinner c (s.node c).term (s.node c).log).addAcked c (s.node c).term (s.node c).log))
  /-- A leader appends an entry of its term. -/
  | propose {s : State N E} (c : N) (e : E) (hc : (s.node c).role = .leader)
      (he : τ e = (s.node c).term) :
      Step s (s.act c { s.node c with log := (s.node c).log ++ [e] }
        ((s.setHistory (s.node c).term ((s.node c).log ++ [e])).addAcked c (s.node c).term
          ((s.node c).log ++ [e])))
  /-- A follower of the winner of its term takes over a prefix of the winner's log, unless it
  already has it. -/
  | accept {s : State N E} (v c : N) (l log : List E) (hrole : (s.node v).role = .follower)
      (hc : s.winner (s.node v).term = some c) (hvote : (s.node v).vote = some c)
      (hl : l <+: s.history (s.node v).term)
      (hlog : log = (s.node v).log ∧ l <+: (s.node v).log ∨ log = l ∧ ¬ l <+: (s.node v).log) :
      Step s (s.act v { s.node v with log := log } (s.addAcked v (s.node v).term l))
  /-- A leader commits a longer prefix that ends in an entry of its term and that a majority has
  acknowledged. -/
  | commit {s : State N E} (c : N) (p : List E) (e : E) (hc : (s.node c).role = .leader)
      (hle : (s.node c).commit ≤ (p ++ [e]).length) (hp : p ++ [e] <+: (s.node c).log)
      (he : τ e = (s.node c).term)
      (hq : Majority s.voters fun v => s.acked v (s.node c).term (p ++ [e])) :
      Step s (s.act c { s.node c with commit := (p ++ [e]).length }
        (s.addCommitted (s.node c).term (p ++ [e])))
  /-- A node learns that a longer prefix of its log is committed. -/
  | learn {s : State N E} (v : N) (i t : ℕ) (p : List E) (hle : (s.node v).commit ≤ i)
      (hi : i ≤ (s.node v).log.length) (hp : s.committed t p) (ht : t ≤ (s.node v).term)
      (hlog : (s.node v).log.take i <+: p) :
      Step s (s.act v { s.node v with commit := i } s.toHistory)

/-- A log is copied, or voters change. -/
inductive Change : State N E → State N E → Prop where
  /-- The log of a node is copied to a node that has no vote. -/
  | stream {s : State N E} (v d : N) (hd : d ∉ s.voters) :
      Change s (s.act d { s.node v with vote := none, role := .follower }
        (s.setAcked d fun t p =>
          (s.node v).role = .leader ∧ t = (s.node v).term ∧ p <+: (s.node v).log))
  /-- Other voters take over between elections, which have reached every term won so far and of
  which a majority has every committed prefix. -/
  | reconfigure {s : State N E} (voters : List N)
      (hrole : ∀ v, (s.node v).role = .follower ∨ (s.node v).role = .leader ∧ v ∈ voters)
      (hterm : ∀ v ∈ voters, ∀ t, s.winner t ≠ none → t ≤ (s.node v).term)
      (hlog : ∀ t p, s.committed t p → Majority voters fun v => p <+: (s.node v).log) :
      Change s (s.reconfigure voters)

end RaftLib
