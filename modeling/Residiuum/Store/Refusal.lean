import Residiuum.Store.StoreWrites

/-!
# Refused requests

A put or delete may be refused for its own content: its write condition, the length of its subject
or its value, or an operation id that was used for another request. Operations are committed in
cohorts.

* **`refused_changes_nothing_iff`**: a refused request changes nothing, and leaves the other members
  of its cohort alone, exactly when it is guarded.
-/

namespace Residiuum

open Bool ByteLib Except List Store
open Std (TreeMap)

/-! ## Requests -/

/-- What a write requires. -/
inductive WriteCondition
  | unconditional
  | absent
  | present
  | liveEventId (expected : Arr 16)
  deriving DecidableEq, Repr

/-- Kinds of requests. -/
inductive OperationMutationKind
  | put (body : Bytes)
  | delete
  deriving DecidableEq, Repr

/-- A write request. -/
structure Request where
  subject : Bytes
  kind : OperationMutationKind
  mode : DurabilityMode
  condition : WriteCondition
  operation : Option (Arr 16 × Arr 32)
  lens : EnvelopeLens
  deriving DecidableEq, Repr

def Store.liveEventId (s : Store) (subject : Bytes) : Option (Arr 16) :=
  match s.index[subject]? with
  | some (.live value) => some value.eventId
  | _ => none

def Store.checkWriteCondition (s : Store) (subject : Bytes) :
    WriteCondition → Except StoreFault Unit
  | .unconditional => .ok ()
  | .absent => if (s.liveEventId subject).isSome then .error .keyExists else .ok ()
  | .present =>
    if (s.liveEventId subject).isSome then .ok () else .error (.versionConflict (zeros 16) none)
  | .liveEventId expected =>
    if s.liveEventId subject = some expected then .ok ()
    else .error (.versionConflict expected (s.liveEventId subject))

def operationRequestError : StoreFault → Bool
  | .keyExists | .versionConflict _ _ | .operationIdentityConflict | .subjectTooLong
  | .store .payloadTooLarge => true
  | _ => false

section Requests

variable (R : Runtime) (mint : ℕ → Arr 16) (cfg : StoreConfig)

/-- `put_subject_bytes_if_awo_owned_with_identity` and its counterpart for deletes. -/
def Store.request (s : Store) (r : Request) : Store × Except StoreFault WriteReceipt :=
  if s.awoWriterPoisoned then (s, .error .adaptiveWriterPoisoned)
  else
    match s.checkWriteCondition r.subject r.condition with
    | .error e => (s, .error e)
    | .ok () =>
      match r.kind with
      | .put body => s.put R mint cfg r.subject body r.mode r.operation r.lens
      | .delete => s.delete R mint cfg r.subject r.mode r.operation r.lens

def Store.answers (s : Store) : List Request → List (Except StoreFault WriteReceipt)
  | [] => []
  | r :: rs => (s.request R mint cfg r).2 :: Store.answers (s.request R mint cfg r).1 rs

/-- A request leaves the index and the files as they are, and all later answers. -/
def Store.Unharmed (s : Store) (r : Request) : Prop :=
  (s.request R mint cfg r).1.index = s.index ∧ (s.request R mint cfg r).1.files = s.files ∧
    ∀ later, (s.request R mint cfg r).1.answers R mint cfg later = s.answers R mint cfg later

/-- The value is within the limits of the profile. -/
def OperationMutationKind.Fits : OperationMutationKind → Prop
  | put body => body.length ≤ min cfg.policy.maxLogicalPayloadBytes storeMaxBodyLen ∧
      ∃ layout, cfg.policy.admit body.length = .ok layout
  | delete => True

/-- The request is a memory-mode one, or its condition or its size is refused. -/
def Request.Guarded (s : Store) (r : Request) : Prop :=
  r.mode = .memory ∨ s.checkWriteCondition r.subject r.condition ≠ .ok () ∨ ¬r.kind.Fits cfg

/-! ## Cohorts -/

/-- A member of a cohort. -/
structure Operation where
  operationId : Arr 16
  contentHash : Arr 32
  subject : Bytes
  kind : OperationMutationKind
  condition : WriteCondition
  lens : EnvelopeLens
  deriving DecidableEq, Repr

def Operation.request (item : Operation) : Request :=
  ⟨item.subject, item.kind, .buffered, item.condition, some (item.operationId, item.contentHash),
    item.lens⟩

/-- What a member gets. -/
structure OperationPutOutcome where
  receipt : WriteReceipt
  deduplicated : Bool
  deriving DecidableEq, Repr

/-- Past operations: the hash of their content and their receipt. -/
abbrev DedupTable : Type := TreeMap (Arr 16) (Arr 32 × WriteReceipt) (compareOn Subtype.val)

/-- A store with the table of past operations. -/
structure OpStore where
  store : Store
  writeDedup : DedupTable

def resolveWriteDedup (dedup : DedupTable) (item : Operation) :
    Except StoreFault (Option WriteReceipt) :=
  match dedup[item.operationId]? with
  | none => .ok none
  | some (contentHash, receipt) =>
    if contentHash = item.contentHash then .ok (some receipt)
    else .error .operationIdentityConflict

/-- The members of a cohort so far, with their outcomes. -/
abbrev Outcomes : Type := List (Operation × Except StoreFault OperationPutOutcome)

/-- The outcome of a member that repeats another one. -/
def replayOutcome : Except StoreFault OperationPutOutcome → Except StoreFault OperationPutOutcome
  | .ok outcome => .ok { outcome with deduplicated := true }
  | .error .keyExists => .error .keyExists
  | .error (.versionConflict expected observed) => .error (.versionConflict expected observed)
  | .error .operationIdentityConflict => .error .operationIdentityConflict
  | .error _ => .error (.consistencyViolation
      "operation cohort duplicate owner failed without replayable outcome")

/-- One member of a cohort. An error that is not one of the request ends the cohort. -/
def installOperation (dedup : DedupTable) (c : Store × Outcomes) (item : Operation) :
    Except (Store × StoreFault) (Store × Outcomes) :=
  match resolveWriteDedup dedup item with
  | .error e => .ok (c.1, c.2 ++ [(item, .error e)])
  | .ok (some receipt) => .ok (c.1, c.2 ++ [(item, .ok ⟨receipt, true⟩)])
  | .ok none =>
    match c.2.find? fun done => done.1.operationId = item.operationId with
    | some (owner, outcome) =>
      .ok (c.1, c.2 ++ [(item, if owner.contentHash = item.contentHash then replayOutcome outcome
        else .error .operationIdentityConflict)])
    | none =>
      match c.1.request R mint cfg item.request with
      | (s, .ok receipt) =>
        .ok (s, c.2 ++ [(item, .ok ⟨{ receipt with durability := .durable }, false⟩)])
      | (s, .error e) =>
        if operationRequestError e then .ok (s, c.2 ++ [(item, .error e)]) else .error (s, e)

def Store.persistAllActives (s : Store) : Store :=
  { s with actives := s.actives.map fun w => { w with stableLen := w.file.byteLen } }

/-- What the table records of a new operation. -/
def dedupRecord (done : Operation × Except StoreFault OperationPutOutcome) :
    Option (Arr 16 × Arr 32 × WriteReceipt) :=
  match done.2 with
  | .ok ⟨receipt, false⟩ => some (done.1.operationId, done.1.contentHash, receipt)
  | _ => none

/-- The end of a cohort: the files are synced and the new operations recorded. -/
def OpStore.finish (s : OpStore) (c : Store × Outcomes) : OpStore where
  store := if (c.2.filterMap dedupRecord).isEmpty then c.1 else c.1.persistAllActives
  writeDedup := (c.2.filterMap dedupRecord).foldl (fun table r => table.insert r.1 r.2) s.writeDedup

def OpStore.operationCohort (s : OpStore) (items : List Operation) :
    OpStore × Except StoreFault (List (Except StoreFault OperationPutOutcome)) :=
  if s.store.awoWriterPoisoned then (s, .error .adaptiveWriterPoisoned)
  else
    match items.foldlM (installOperation R mint cfg s.writeDedup) (s.store, []) with
    | .error (store, e) => ({ s with store := { store with awoWriterPoisoned := true } }, .error e)
    | .ok c => (s.finish c, .ok (c.2.map Prod.snd))

/-- A member is refused for its own content when its turn comes. -/
def Operation.RefusedAt (dedup : DedupTable) (s : Store) (item : Operation) (e : StoreFault) :
    Prop :=
  resolveWriteDedup dedup item = .error e ∨
    resolveWriteDedup dedup item = .ok none ∧
      (s.request R mint cfg item.request).2 = .error e ∧ operationRequestError e = true

end Requests

/-- A list with one more member at a place. -/
def putAt {α : Type*} (i : ℕ) (a : α) (l : List α) : List α := l.take i ++ a :: l.drop i

/-- The result of a cohort with one more member that got an error. -/
def withRefusal (i : ℕ) (e : StoreFault)
    (result : OpStore × Except StoreFault (List (Except StoreFault OperationPutOutcome))) :
    OpStore × Except StoreFault (List (Except StoreFault OperationPutOutcome)) :=
  (result.1, result.2.map (putAt i (.error e)))

/-! ## What a refusal leaves behind -/

section Refusal

variable {R : Runtime} {mint : ℕ → Arr 16} {cfg : StoreConfig} {s : Store} {r : Request}
  {e : StoreFault}

theorem settle_of_error {mode : DurabilityMode} {out : Except StoreFault (Store × WriteReceipt)}
    (h : (s.settle mode out).2 = .error e) :
    (s.settle mode out).1 = if mode = .memory then s else { s with awoWriterPoisoned := true } := by
  cases out with
  | error e => rfl
  | ok out => cases h

/-- A request is refused by a writer that has failed, or by its own content. -/
theorem request_of_poisoned (h : s.awoWriterPoisoned = true) :
    s.request R mint cfg r = (s, .error .adaptiveWriterPoisoned) := by
  simp [request, h]

theorem request_of_error (hopen : s.awoWriterPoisoned = false)
    (h : (s.request R mint cfg r).2 = .error e) :
    r.Guarded cfg s ∧ (s.request R mint cfg r).1 = s ∨
      ¬r.Guarded cfg s ∧ (s.request R mint cfg r).1 = { s with awoWriterPoisoned := true } := by
  unfold request at h ⊢
  rw [hopen, if_neg Bool.false_ne_true] at h ⊢
  cases hcheck : s.checkWriteCondition r.subject r.condition with
  | error e' => exact .inl ⟨.inr (.inl (by simp [hcheck])), rfl⟩
  | ok =>
    cases hkind : r.kind with
    | delete =>
      simp only [hcheck, hkind, delete, hopen, false_eq_true, if_false] at h ⊢
      rw [settle_of_error h]
      by_cases hmode : r.mode = .memory <;>
        simp [Request.Guarded, hcheck, hkind, OperationMutationKind.Fits, hmode]
    | put body =>
      simp only [hcheck, hkind, put, hopen, false_eq_true, if_false] at h ⊢
      split at h
      · rename_i hlen
        rw [if_pos hlen]
        exact .inl ⟨.inr (.inr fun hfits => by
          rw [hkind] at hfits; exact absurd hfits.1 (by omega)), rfl⟩
      rename_i hlen
      rw [if_neg hlen]
      cases hroute : cfg.policy.admit body.length with
      | error e' =>
        refine .inl ⟨.inr (.inr fun hfits => ?_), rfl⟩
        rw [hkind] at hfits
        simp [OperationMutationKind.Fits, hroute] at hfits
      | ok layout =>
        have hfits : r.kind.Fits cfg := by
          rw [hkind]
          exact ⟨not_lt.mp hlen, layout, hroute⟩
        have hguarded : r.Guarded cfg s ↔ r.mode = .memory := by
          simp [Request.Guarded, hcheck, hfits]
        simp only [hroute] at h ⊢
        rw [hguarded]
        split at h
        · rename_i hchunked
          rw [if_pos hchunked, settle_of_error h, if_neg hchunked.1]
          exact .inr ⟨hchunked.1, rfl⟩
        · rename_i hinline
          rw [if_neg hinline, settle_of_error h]
          by_cases hmode : r.mode = .memory <;> simp [hmode]

theorem not_poisoned_of_refused (h : (s.request R mint cfg r).2 = .error e)
    (he : operationRequestError e = true) : s.awoWriterPoisoned = false := by
  by_contra hpoisoned
  rw [request_of_poisoned (by simpa using hpoisoned)] at h
  obtain rfl := Except.error.inj h
  cases he

/-- A deletion in memory mode, which an open store does not refuse for a failed writer. -/
theorem answers_ne (h : s.awoWriterPoisoned = false) : ∃ later,
    ({ s with awoWriterPoisoned := true } : Store).answers R mint cfg later ≠
      s.answers R mint cfg later := by
  refine ⟨[⟨[], .delete, .memory, .unconditional, none, ⟨0, 0⟩⟩], ?_⟩
  cases hw : s.actives[subjectWriterShard R [] cfg.writerShards]? <;>
    simp [answers, request, checkWriteCondition, delete, h,
      writeEvent, settle, hw]

theorem unharmed_iff_guarded (h : (s.request R mint cfg r).2 = .error e)
    (he : operationRequestError e = true) : s.Unharmed R mint cfg r ↔ r.Guarded cfg s := by
  have hopen := not_poisoned_of_refused h he
  rcases request_of_error hopen h with ⟨hguarded, hs⟩ | ⟨hguarded, hs⟩
  · simp [Store.Unharmed, hs, hguarded]
  · refine iff_of_false (fun hun => ?_) hguarded
    obtain ⟨later, hne⟩ : ∃ later, _ ≠ s.answers R mint cfg later := answers_ne hopen
    exact hne (hs ▸ hun.2.2 later)

/-! ## One member more -/

variable {dedup : DedupTable} {c c' : Store × Outcomes} {x item : Operation} {i : ℕ} {α : Type*}

theorem putAt_append {l : List α} (h : i ≤ l.length) (a y : α) :
    putAt i a l ++ [y] = putAt i a (l ++ [y]) := by
  simp [putAt, take_append_of_le_length h, drop_append_of_le_length h]

theorem find?_putAt {p : α → Bool} {a : α} (h : p a = false) (l : List α) :
    (putAt i a l).find? p = l.find? p := by
  rw [putAt, find?_append, find?_cons, h, ← find?_append, take_append_drop]

theorem filterMap_putAt {α β : Type*} {f : α → Option β} {a : α} (h : f a = none) (l : List α) :
    (putAt i a l).filterMap f = l.filterMap f := by
  rw [putAt, filterMap_append, filterMap_cons_none h, ← filterMap_append,
    take_append_drop]

/-- The loop with one more member in its outcomes. -/
def addRefused (i : ℕ) (x : Operation) (e : StoreFault) (c : Store × Outcomes) : Store × Outcomes :=
  (c.1, putAt i (x, .error e) c.2)

theorem installOperation_eq_ok (h : installOperation R mint cfg dedup c item = .ok c') :
    ∃ out, c'.2 = c.2 ++ [(item, out)] := by
  unfold installOperation at h
  split at h
  · exact ⟨_, by rw [← ok.inj h]⟩
  · exact ⟨_, by rw [← ok.inj h]⟩
  · split at h
    · exact ⟨_, by rw [← ok.inj h]⟩
    · split at h
      · exact ⟨_, by rw [← ok.inj h]⟩
      · split at h
        · exact ⟨_, by rw [← ok.inj h]⟩
        · cases h

/-- A member is handled as without the refused one, under another operation id. -/
theorem installOperation_addRefused (hi : i ≤ c.2.length) (hne : x.operationId ≠ item.operationId) :
    installOperation R mint cfg dedup (addRefused i x e c) item =
      (installOperation R mint cfg dedup c item).map (addRefused i x e) := by
  have hfind : (putAt i (x, .error e) c.2).find? (fun done => done.1.operationId =
      item.operationId) = c.2.find? fun done => done.1.operationId = item.operationId :=
    find?_putAt (by simpa using hne) c.2
  unfold installOperation addRefused
  simp only [hfind, putAt_append hi]
  split
  · rfl
  · rfl
  · split
    · rfl
    · split
      · rfl
      · split <;> rfl

theorem foldlM_addRefused {post : List Operation} (hi : i ≤ c.2.length)
    (hne : ∀ item ∈ post, x.operationId ≠ item.operationId) :
    post.foldlM (installOperation R mint cfg dedup) (addRefused i x e c) =
      (post.foldlM (installOperation R mint cfg dedup) c).map (addRefused i x e) := by
  induction post generalizing c with
  | nil => rfl
  | cons item post ih =>
    rw [foldlM_cons, foldlM_cons,
      installOperation_addRefused hi (hne item mem_cons_self)]
    cases hinstall : installOperation R mint cfg dedup c item with
    | error stop => rfl
    | ok c' =>
      obtain ⟨out, hout⟩ := installOperation_eq_ok hinstall
      refine ih ?_ fun item hitem => hne item (mem_cons_of_mem _ hitem)
      rw [hout, length_append]
      omega

theorem map_fst_of_foldlM {items : List Operation}
    (h : items.foldlM (installOperation R mint cfg dedup) c = .ok c') :
    c'.2.map Prod.fst = c.2.map Prod.fst ++ items := by
  induction items generalizing c with
  | nil =>
    cases h
    simp
  | cons item items ih =>
    rw [foldlM_cons] at h
    obtain ⟨c₁, hinstall, hrest⟩ := bind_eq_ok.mp h
    obtain ⟨out, hout⟩ := installOperation_eq_ok hinstall
    rw [ih hrest, hout]
    simp

/-- What the turn of a refused member does. -/
theorem installOperation_of_refused {t : Store} {done : Outcomes}
    (hid : ∀ d ∈ done, d.1.operationId ≠ x.operationId) (h : x.RefusedAt R mint cfg dedup t e) :
    ∃ t', installOperation R mint cfg dedup (t, done) x = .ok (t', done ++ [(x, .error e)]) ∧
      ((resolveWriteDedup dedup x = .error e ∨ x.request.Guarded cfg t) ∧ t' = t ∨
        ¬(resolveWriteDedup dedup x = .error e ∨ x.request.Guarded cfg t) ∧
          t.awoWriterPoisoned = false ∧ t' = { t with awoWriterPoisoned := true }) := by
  have hfind : done.find? (fun d => d.1.operationId = x.operationId) = none := by
    simpa using hid
  rcases h with hresolve | ⟨hresolve, hrequest, he⟩
  · exact ⟨t, by simp [installOperation, hresolve], .inl ⟨.inl hresolve, rfl⟩⟩
  have hopen := not_poisoned_of_refused hrequest he
  refine ⟨(t.request R mint cfg x.request).1, ?_, ?_⟩
  · unfold installOperation
    simp only [hresolve, hfind]
    split
    · rename_i heq
      simp [heq] at hrequest
    · rename_i heq
      simp only [heq, Except.error.injEq] at hrequest
      simp [hrequest, he, heq]
  · rcases request_of_error hopen hrequest with ⟨hguarded, ht⟩ | ⟨hguarded, ht⟩
    · exact .inl ⟨.inr hguarded, ht⟩
    · exact .inr ⟨by simp [hresolve, hguarded], hopen, ht⟩

theorem finish_addRefused (S : OpStore) : S.finish (addRefused i x e c) = S.finish c := by
  have hnone : dedupRecord (x, .error e) = none := rfl
  simp only [OpStore.finish, addRefused, filterMap_putAt hnone]

theorem poisoned_finish (S : OpStore) : (S.finish c).store.awoWriterPoisoned =
    c.1.awoWriterPoisoned := by
  unfold OpStore.finish
  split <;> rfl

end Refusal

/-- **A refused request changes nothing exactly when it is guarded**: the index and the files stay,
and later requests are answered as if it had not been made. A
member of a cohort with distinct operation ids can be left out exactly when the table of past
operations refuses it or it is guarded when its turn comes. -/
theorem refused_changes_nothing_iff (R : Runtime) (mint : ℕ → Arr 16) (cfg : StoreConfig) :
    (∀ (s : Store) (r : Request) (e : StoreFault), (s.request R mint cfg r).2 = .error e →
        operationRequestError e = true → (s.Unharmed R mint cfg r ↔ r.Guarded cfg s)) ∧
      ∀ (s : OpStore) (items : List Operation) (x : Operation) (t : Store) (done : Outcomes)
        (e : StoreFault), s.store.awoWriterPoisoned = false →
        items.foldlM (installOperation R mint cfg s.writeDedup) (s.store, []) = .ok (t, done) →
        x.RefusedAt R mint cfg s.writeDedup t e →
        ((items ++ [x]).map Operation.operationId).Nodup →
        ((∀ later : List Operation, ((items ++ x :: later).map Operation.operationId).Nodup →
            s.operationCohort R mint cfg (items ++ x :: later) =
              withRefusal items.length e (s.operationCohort R mint cfg (items ++ later))) ↔
          resolveWriteDedup s.writeDedup x = .error e ∨ x.request.Guarded cfg t) := by
  refine ⟨fun s r e => unharmed_iff_guarded, ?_⟩
  intro s items x t done e hopen hturn hrefused hdistinct
  have hdone : done.map Prod.fst = items := by simpa using map_fst_of_foldlM hturn
  have hlen : done.length = items.length := by rw [← hdone, length_map]
  have hid : ∀ d ∈ done, d.1.operationId ≠ x.operationId := by
    intro d hd heq
    rw [map_append, nodup_append] at hdistinct
    refine hdistinct.2.2 d.1.operationId (mem_map_of_mem ?_) x.operationId (by simp) heq
    rw [← hdone]
    exact mem_map_of_mem hd
  obtain ⟨t', hinstall, hcases⟩ := installOperation_of_refused hid hrefused
  have hwith : ∀ later, (items ++ x :: later).foldlM (installOperation R mint cfg s.writeDedup)
      (s.store, []) = later.foldlM (installOperation R mint cfg s.writeDedup)
        (t', done ++ [(x, .error e)]) := by
    intro later
    simp only [foldlM_append, foldlM_cons, hturn]
    exact congrArg (· >>= fun c => later.foldlM _ c) hinstall
  have hwithout : ∀ later, (items ++ later).foldlM (installOperation R mint cfg s.writeDedup)
      (s.store, []) = later.foldlM (installOperation R mint cfg s.writeDedup) (t, done) := by
    intro later
    simp only [foldlM_append, hturn]
    rfl
  rcases hcases with ⟨hguarded, rfl⟩ | ⟨hguarded, htopen, rfl⟩
  · refine iff_of_true (fun later hnodup => ?_) hguarded
    have hlater : ∀ item ∈ later, x.operationId ≠ item.operationId := by
      intro item hitem heq
      simp only [map_append, map_cons, nodup_append, nodup_cons] at hnodup
      exact hnodup.2.1.1 (heq ▸ mem_map_of_mem hitem)
    have hadd : (t', done ++ [(x, .error e)]) = addRefused items.length x e (t', done) := by
      simp [addRefused, putAt, ← hlen]
    have hrest := hwith later
    rw [hadd, foldlM_addRefused (show items.length ≤ (t', done).2.length from hlen.ge) hlater]
      at hrest
    unfold OpStore.operationCohort withRefusal
    simp only [hopen, false_eq_true, if_false, hrest, hwithout]
    cases later.foldlM (installOperation R mint cfg s.writeDedup) (t', done) with
    | error stop => rfl
    | ok c =>
      refine Prod.ext (finish_addRefused s) ?_
      simp [Except.map, addRefused, putAt]
  · refine iff_of_false (fun h => ?_) hguarded
    have hfirst := congrArg (fun result => result.1.store.awoWriterPoisoned) (h [] hdistinct)
    unfold OpStore.operationCohort withRefusal at hfirst
    simp only [hopen, false_eq_true, if_false, hwith, hwithout, foldlM_nil] at hfirst
    change (s.finish _).store.awoWriterPoisoned = (s.finish _).store.awoWriterPoisoned at hfirst
    rw [poisoned_finish, poisoned_finish, htopen] at hfirst
    cases hfirst

def refusalConfig : StoreConfig := ⟨.applicationV1, 16 * 1024, 1, 0⟩

/-- A put of an empty value, under an operation id made from a byte. -/
def samplePut (id : UInt8) (subject : Bytes) (condition : WriteCondition) : Operation :=
  ⟨toArr 16 [id], zeros 32, subject, .put [], condition, ⟨64, 64⟩⟩

/-- An update of a subject that is not there. -/
theorem sample_refusal_unharmed :
    (Store.create refusalConfig).Unharmed productRuntime sampleId refusalConfig
        (samplePut 1 [7] .present).request ∧
      OpStore.operationCohort productRuntime sampleId refusalConfig
          ⟨Store.create refusalConfig, ∅⟩ [samplePut 1 [7] .present, samplePut 2 [7] .absent] =
        withRefusal 0 (.versionConflict (zeros 16) none)
          (OpStore.operationCohort productRuntime sampleId refusalConfig
            ⟨Store.create refusalConfig, ∅⟩ [samplePut 2 [7] .absent]) := by
  have hrefused : ((create refusalConfig).request productRuntime sampleId refusalConfig
      (samplePut 1 [7] .present).request).2 = .error (.versionConflict (zeros 16) none) := by
    decide +kernel
  have hguarded : (samplePut 1 [7] .present).request.Guarded refusalConfig
      (create refusalConfig) := .inr (.inl (by decide +kernel))
  obtain ⟨hsingle, hcohort⟩ :=
    refused_changes_nothing_iff productRuntime sampleId refusalConfig
  exact ⟨(hsingle _ _ _ hrefused rfl).mpr hguarded,
    (hcohort ⟨create refusalConfig, ∅⟩ [] _ _ [] _ rfl rfl
      (.inr ⟨by decide +kernel, hrefused, rfl⟩) (by decide)).mpr (.inr hguarded) _ (by decide)⟩

/-- **A subject that is too long ends the writing**: later requests are refused, and a cohort fails
as a whole. -/
theorem long_subject_poisons :
    ((Store.create refusalConfig).answers productRuntime sampleId refusalConfig
        [(samplePut 1 (List.replicate 4097 7) .unconditional).request,
          (samplePut 2 [7] .unconditional).request]).map (Except.map WriteReceipt.offset) =
      [.error .subjectTooLong, .error .adaptiveWriterPoisoned] ∧
    ((Store.create refusalConfig).answers productRuntime sampleId refusalConfig
        [(samplePut 2 [7] .unconditional).request]).map (Except.map WriteReceipt.offset) =
      [.ok (ActiveWriter.start 1).file.byteLen] ∧
    (OpStore.operationCohort productRuntime sampleId refusalConfig
        ⟨Store.create refusalConfig, ∅⟩ [samplePut 1 (List.replicate 4097 7) .unconditional,
          samplePut 2 [7] .unconditional]).2 = .error .adaptiveWriterPoisoned := by
  decide +kernel

end Residiuum
