import Mathlib.Algebra.Order.BigOperators.Ring.List

/-!
# The ordered ready ring

`OrderedReadyRing` of `adaptive_write/ordered_ready.rs`: outcomes enter under their tickets in any
order and leave in ticket order. The map `ready` is a list of its entries, since nothing reads
their order; the waiting pops remove what `try_pop_next` does.

* **`ring_exact`**: a run loses and leaks nothing, and the next ticket always fits, as long as
  stale tickets stay out and other tickets leave room for the largest outcome.
-/

namespace Residiuum

/-- Why a push is refused. -/
inductive ReadyError where
  | duplicateTicket
  | bytesExhausted
  | overflow
  deriving DecidableEq, Repr

/-- Outcomes that wait for their turn. -/
structure OrderedReadyRing (T : Type) where
  nextExpected : ℕ
  ready : List (ℕ × T × ℕ)
  bytesHeld : ℕ
  byteLimit : ℕ
  deriving DecidableEq, Repr

namespace OrderedReadyRing

variable {T : Type}

def new (firstTicket byteLimit : ℕ) : OrderedReadyRing T := ⟨firstTicket, [], 0, byteLimit⟩

section

variable (g : OrderedReadyRing T)

def holds (ticket : ℕ) : Bool := g.ready.any (·.1 == ticket)

def push (ticket : ℕ) (outcome : T) (bytes : ℕ) : Except (ReadyError × T) (OrderedReadyRing T) :=
  if g.holds ticket then .error (.duplicateTicket, outcome)
  else if 2 ^ 64 ≤ g.bytesHeld + bytes then .error (.overflow, outcome)
  else if g.byteLimit < g.bytesHeld + bytes then .error (.bytesExhausted, outcome)
  else .ok { g with
    ready := (ticket, outcome, bytes) :: g.ready
    bytesHeld := g.bytesHeld + bytes }

def tryPopNext : Option ((ℕ × T) × OrderedReadyRing T) :=
  (g.ready.find? (·.1 == g.nextExpected)).map fun e =>
    ((g.nextExpected, e.2.1), { g with
      nextExpected := min (g.nextExpected + 1) (2 ^ 64 - 1)
      ready := g.ready.eraseP (·.1 == g.nextExpected)
      bytesHeld := g.bytesHeld - e.2.2 })

/-- The outcomes still to be popped. -/
def pending : List (ℕ × T × ℕ) := g.ready.filter fun e => g.nextExpected ≤ e.1

end

/-- Calls of the ring. -/
inductive Call (T : Type) where
  | push (ticket : ℕ) (outcome : T) (bytes : ℕ)
  | pop

/-- The ring with the outcomes it has accepted and those popped so far. -/
structure Trace (T : Type) where
  ring : OrderedReadyRing T
  accepted : List (ℕ × T)
  popped : List (ℕ × T)

def start (firstTicket byteLimit : ℕ) : Trace T := ⟨new firstTicket byteLimit, [], []⟩

def step (s : Trace T) : Call T → Trace T
  | .push ticket outcome bytes =>
    match s.ring.push ticket outcome bytes with
    | .ok g => { s with ring := g, accepted := (ticket, outcome) :: s.accepted }
    | .error _ => s
  | .pop =>
    match s.ring.tryPopNext with
    | some (p, g) => { s with ring := g, popped := s.popped ++ [p] }
    | none => s

/-- Every push is of a ticket neither popped nor the last one and of at most `B` bytes, and leaves
`B` bytes free unless the ticket is the next. -/
def Fits (B : ℕ) (s : Trace T) : List (Call T) → Prop
  | [] => True
  | .pop :: calls => Fits B (step s .pop) calls
  | .push ticket outcome bytes :: calls =>
    (s.ring.nextExpected ≤ ticket ∧ ticket < 2 ^ 64 - 1 ∧ bytes ≤ B ∧
      (ticket ≠ s.ring.nextExpected → s.ring.bytesHeld + bytes + B ≤ s.ring.byteLimit)) ∧
    Fits B (step s (.push ticket outcome bytes)) calls

/-- Consecutive tickets from `first` have been popped, every accepted outcome is popped or in
`left`, and the bytes held are those of `left`. -/
structure Exact (first limit : ℕ) (s : Trace T) (left : List (ℕ × T × ℕ)) : Prop where
  next : s.ring.nextExpected = first + s.popped.length
  consecutive : s.popped.map Prod.fst = List.range' first s.popped.length
  kept : s.accepted.Perm (s.popped ++ left.map fun e => (e.1, e.2.1))
  held : s.ring.bytesHeld = (left.map (·.2.2)).sum
  within : s.ring.bytesHeld ≤ limit

section

variable {g g' : OrderedReadyRing T} {ticket bytes : ℕ} {outcome : T} {p : ℕ × T}

theorem push_eq_ok : g.push ticket outcome bytes = .ok g' ↔ g.holds ticket = false ∧
    g.bytesHeld + bytes < 2 ^ 64 ∧ g.bytesHeld + bytes ≤ g.byteLimit ∧
    ⟨g.nextExpected, (ticket, outcome, bytes) :: g.ready, g.bytesHeld + bytes, g.byteLimit⟩ =
      g' := by
  rw [push]
  split_ifs <;> simp_all

theorem perm_of_find? {α : Type} {q : α → Bool} {l : List α} {a : α} (h : l.find? q = some a) :
    l.Perm (a :: l.eraseP q) := by
  induction l with
  | nil => cases h
  | cons b l ih =>
    by_cases hb : q b
    · simp_all
    · simp only [List.find?_cons, hb] at h
      simpa [hb] using ((ih h).cons b).trans (.swap ..)

theorem tryPopNext_eq_some (h : g.tryPopNext = some (p, g')) : ∃ e rest,
    e.1 = g.nextExpected ∧ p = (e.1, e.2.1) ∧ g.ready.Perm (e :: rest) ∧
    g' = ⟨min (g.nextExpected + 1) (2 ^ 64 - 1), rest, g.bytesHeld - e.2.2, g.byteLimit⟩ := by
  obtain ⟨e, he, h⟩ := Option.map_eq_some_iff.1 h
  have hn : e.1 = g.nextExpected := by simpa using List.find?_some he
  cases h
  exact ⟨e, _, hn, by rw [hn], perm_of_find? he, rfl⟩

end

/-- What every run of fitting calls keeps. -/
structure Inv (B first limit : ℕ) (s : Trace T) : Prop
    extends Exact first limit s s.ring.ready where
  limit_eq : s.ring.byteLimit = limit
  window : ∀ e ∈ s.ring.ready, s.ring.nextExpected ≤ e.1 ∧ e.1 < 2 ^ 64 - 1
  tickets : (s.ring.ready.map Prod.fst).Nodup
  room : ∀ e ∈ s.ring.ready, e.1 = s.ring.nextExpected → s.ring.bytesHeld + B ≤ limit + e.2.2
  free : s.ring.holds s.ring.nextExpected = false → s.ring.bytesHeld + B ≤ limit

variable {B first limit ticket bytes : ℕ} {outcome : T} {s : Trace T} {calls : List (Call T)}

theorem Inv.push (h : Inv B first limit s) (hn : s.ring.nextExpected ≤ ticket)
    (ht : ticket < 2 ^ 64 - 1)
    (hr : ticket ≠ s.ring.nextExpected → s.ring.bytesHeld + bytes + B ≤ s.ring.byteLimit) :
    Inv B first limit (step s (.push ticket outcome bytes)) := by
  rw [step]
  split
  case h_2 => exact h
  case h_1 g hg =>
    obtain ⟨hold, -, hb, rfl⟩ := push_eq_ok.1 hg
    have hnot : ∀ e ∈ s.ring.ready, e.1 ≠ ticket := by simpa [holds] using hold
    have hl := h.limit_eq
    refine ⟨⟨h.next, h.consecutive, (h.kept.cons _).trans List.perm_middle.symm,
      by simp [h.held, add_comm], hl ▸ hb⟩, hl, List.forall_mem_cons.2 ⟨⟨hn, ht⟩, h.window⟩,
      List.nodup_cons.2 ⟨?_, h.tickets⟩, fun e he he' => ?_, fun hf => ?_⟩
    · intro hm
      obtain ⟨e, he, he'⟩ := List.mem_map.1 hm
      exact hnot e he he'
    · by_cases hne : ticket = s.ring.nextExpected
      · have := h.free (hne ▸ hold)
        obtain rfl | he := List.mem_cons.1 he
        · simp only
          omega
        · exact absurd (he'.trans hne.symm) (hnot e he)
      · have := hr hne
        simp only
        omega
    · have := hr fun hne => by simp [holds, hne] at hf
      simp only
      omega

theorem Inv.pop (h : Inv B first limit s) : Inv B first limit (step s .pop) := by
  rw [step]
  split
  case h_2 => exact h
  case h_1 p g hg =>
    obtain ⟨e, rest, hn, rfl, hperm, rfl⟩ := tryPopNext_eq_some hg
    have hw := fun x hx => h.window x (hperm.mem_iff.2 hx)
    have hd := List.nodup_cons.1 ((hperm.map Prod.fst).nodup_iff.1 h.tickets)
    have hsum : s.ring.bytesHeld = e.2.2 + (rest.map (·.2.2)).sum :=
      h.held.trans (hperm.map (·.2.2)).sum_nat
    have hnext : min (s.ring.nextExpected + 1) (2 ^ 64 - 1) = s.ring.nextExpected + 1 := by
      have := (hw e (by simp)).2
      omega
    have hroom := h.room e (hperm.mem_iff.2 (by simp)) hn
    have hwithin := h.within
    refine ⟨⟨?_, ?_, ?_, ?_, ?_⟩, h.limit_eq, fun x hx => ?_, hd.2, fun x _ _ => ?_,
      fun _ => ?_⟩ <;>
      simp only [hnext]
    · simp [h.next, add_assoc]
    · simp [h.consecutive, List.range'_concat, hn, h.next]
    · simpa using h.kept.trans ((hperm.map _).append_left _)
    case refine_6 =>
      have hne : x.1 ≠ s.ring.nextExpected := fun hx' =>
        hd.1 (List.mem_map.2 ⟨x, hx, hx'.trans hn.symm⟩)
      have := hw x (by simp [hx])
      omega
    all_goals omega

theorem Inv.run (h : Inv B first limit s) (hf : Fits B s calls) :
    Inv B first limit (calls.foldl step s) := by
  induction calls generalizing s with
  | nil => exact h
  | cons c calls ih =>
    cases c with
    | pop => exact ih h.pop hf
    | push => exact ih (h.push hf.1.1 hf.1.2.1 hf.1.2.2.2) hf.2

/-- **Nothing is lost or leaked, and the next ticket is never refused.** -/
theorem ring_exact (hB : B ≤ limit) (hl : limit < 2 ^ 64) (h : Fits B (start first limit) calls) :
    let s := calls.foldl step (start first limit)
    Exact first limit s s.ring.pending ∧
    ∀ (outcome : T) (bytes : ℕ), bytes ≤ B → s.ring.holds s.ring.nextExpected = false →
      ∃ g, s.ring.push s.ring.nextExpected outcome bytes = .ok g := by
  intro s
  have hs : Inv B first limit s := Inv.run ⟨⟨rfl, rfl, .refl _, rfl, Nat.zero_le _⟩, rfl, nofun,
    List.nodup_nil, nofun, fun _ => by simpa [start, new] using hB⟩ h
  have hp : s.ring.pending = s.ring.ready :=
    List.filter_eq_self.2 fun e he => decide_eq_true (hs.window e he).1
  refine ⟨hp ▸ hs.toExact, fun outcome bytes hb hh => ?_⟩
  have := hs.free hh
  exact ⟨_, push_eq_ok.2 ⟨hh, by omega, by rw [hs.limit_eq]; omega, rfl⟩⟩

theorem ring_exact_two : ∃ calls : List (Call ℕ), Fits 5 (start 1 10) calls ∧
    (calls.foldl step (start 1 10)).popped = [(1, 7), (2, 8)] ∧
    Exact 1 10 (calls.foldl step (start 1 10)) [] := by
  have h : Fits 5 (start 1 10) [.push 2 8 3, .push 1 7 5, .pop, .pop] := by
    simp [Fits, step, start, new, push, holds]
  exact ⟨_, h, rfl, (ring_exact (by decide) (by decide) h).1⟩

/-- A stale ticket is held forever, and a later one can leave no room for the next. -/
theorem stale_ticket_leaks :
    (let s := [.push 1 7 4, .pop, .push 1 8 4].foldl step (start 1 10)
     s.ring.bytesHeld = 4 ∧ s.ring.pending = []) ∧
    (let s := [.push 2 7 10].foldl step (start 1 10)
     s.ring.push 1 8 1 = .error (.bytesExhausted, 8) ∧ step s .pop = s) :=
  ⟨⟨rfl, rfl⟩, rfl, rfl⟩

end OrderedReadyRing

end Residiuum
