import Mathlib.Data.List.Destutter
import Residiuum.Cluster.Raft
import Residiuum.Format.CborHead

/-!
# Continuation tokens of a distributed query

The state of a paged query travels in a token: a byte string with a message authentication code
under a key of the cluster.

* `QueryContinuation.encode`, `QueryContinuation.decode`: the token and how it is read.
* **`decode_encode`**: a token reads back as the continuation it was made from. An empty text for
  the subject bound of the query reads as no bound, and the highest count as unbounded.
-/

namespace Residiuum.Cluster

open ByteLib DistinctLib List Option StateT UInt32

abbrev PartitionId : Type := UInt32

/-- Modes that a token names. -/
inductive ReadMode where
  | linearizable
  | available
  | salvage
  deriving DecidableEq, Repr

def ReadMode.asStr : ReadMode → String
  | .linearizable => "linearizable"
  | .available => "available"
  | .salvage => "salvage"

/-- `StoreError`, as far as a read of a subject returns it. -/
inductive StoreError where
  | payloadPartial
  | payloadConflict
  | io (code : ℕ)
  deriving DecidableEq, Repr

/-- `ClusterError`, as far as a scan returns it. -/
inductive ScanError where
  | continuationInvalid (detail : String)
  | consistencyViolation (detail : String)
  | store (e : StoreError)
  deriving DecidableEq, Repr

/-- The digests a query uses: BLAKE3, keyed BLAKE3, and the default hasher of the standard library
on the scope, the subject bound and the limit of a query. -/
structure QueryDigests where
  blake3 : Bytes → Arr 32
  keyedHash : Arr 32 → Bytes → Arr 32
  defaultHash : List PartitionId → String → UInt64 → UInt64

def utf8 (s : String) : Bytes := s.toByteArray.data.toList

theorem fromUtf8_utf8 (s : String) : fromUtf8 (utf8 s) = some s := fromUtf8_eq_some.mpr rfl

theorem utf8_injective : Function.Injective utf8 := by
  intro a b hab
  have ha := fromUtf8_utf8 a
  rw [hab, fromUtf8_utf8] at ha
  exact (Option.some.inj ha).symm

variable {s : String}

@[simp] theorem utf8_eq_nil : utf8 s = [] ↔ s = "" :=
  ⟨fun h => utf8_injective (h.trans rfl), fun h => by rw [h]; decide⟩

/-! ## Sorted scopes -/

def sortDedup (ps : List PartitionId) : List PartitionId := (sortBy compare ps).destutter (· ≠ ·)

theorem sorted_sortBy (ps : List PartitionId) : (sortBy compare ps).Pairwise (· ≤ ·) :=
  (sortBy_pairwise ps).imp fun h => Std.isLE_compare.mp h

theorem sortDedup_pairwise (ps : List PartitionId) : (sortDedup ps).Pairwise (· < ·) := by
  have hle : (sortDedup ps).Pairwise (· ≤ ·) :=
    (sorted_sortBy ps).sublist (destutter_sublist _ _)
  have hanti : Std.Antisymm (α := PartitionId) (· ≤ ·) := ⟨fun _ _ => UInt32.le_antisymm⟩
  have hne : (sortDedup ps).Nodup := by
    rw [sortDedup, (sorted_sortBy ps).destutter_eq_dedup]
    exact nodup_dedup _
  exact (hle.and hne).imp fun h => UInt32.lt_of_le_of_ne h.1 h.2

theorem sortDedup_of_perm {ps scope : List PartitionId} (hperm : ps.Perm scope)
    (hscope : scope.Pairwise (· < ·)) : sortDedup ps = scope := by
  have hsorted : sortBy compare ps = scope := by
    refine List.Perm.eq_of_pairwise ?_ (sorted_sortBy ps)
      (hscope.imp fun h => UInt32.le_of_lt h) ((sortBy_perm compare ps).trans hperm)
    intro a b _ _ hab hba
    exact UInt32.le_antisymm hab hba
  rw [sortDedup, hsorted]
  exact destutter_of_isChain _ _ (hscope.imp fun h => UInt32.ne_of_lt h).isChain

/-! ## Keys -/

/-- A key and its number. -/
structure TokenKeyGeneration where
  generationId : UInt32
  secret : Arr 32

/-- The keys that sign tokens. -/
structure ContinuationKeyring where
  active : TokenKeyGeneration
  previous : Option TokenKeyGeneration

def MAC_DOMAIN : Bytes := utf8 "residiuum-query-continuation-v2-mac\x00"

def TOKEN_MAGIC : Bytes := utf8 "RQRY0002"

def MAX_TOKEN_BYTES : ℕ := 16384

def MAX_SUBJECT_IN_TOKEN : ℕ := 4096

def MAX_PARTITIONS_IN_TOKEN : ℕ := 4096

def MAX_FIND_PAGE_SIZE : UInt64 := 4096

def TokenKeyGeneration.macKey (D : QueryDigests) (g : TokenKeyGeneration)
    (domain publicId : Bytes) : Arr 32 :=
  D.keyedHash g.secret (domain ++ [0] ++ publicId ++ leBytes 4 g.generationId.toNat)

def ContinuationKeyring.macKeyFor (D : QueryDigests) (k : ContinuationKeyring)
    (generationId : UInt32) (domain publicId : Bytes) : Option (Arr 32) :=
  if k.active.generationId = generationId then some (k.active.macKey D domain publicId)
  else match k.previous with
    | some previous =>
      if previous.generationId = generationId then some (previous.macKey D domain publicId)
      else none
    | none => none

/-! ## The token -/

/-- What a token carries. -/
structure QueryContinuation where
  queryId : String
  afterSubject : String
  pageSize : UInt64
  subjectPrefix : Option String
  partitions : List PartitionId
  readMode : ReadMode
  remainingLimit : Option UInt64
  remainingMaxDocs : Option UInt64
  deriving DecidableEq, Repr

def readModeByte : ReadMode → UInt8
  | .linearizable => 1
  | .available => 2
  | .salvage => 3

def readModeFromByte (b : UInt8) : Except ScanError ReadMode :=
  if b = 1 then return .linearizable
  else if b = 2 then return .available
  else if b = 3 then return .salvage
  else throw (.continuationInvalid "unknown read_mode in continuation")

def optUsizeLe (v : Option UInt64) : Bytes := leBytes 8 (v.getD 0xFFFF_FFFF_FFFF_FFFF).toNat

def textField (s : String) : Bytes := leBytes 4 (utf8 s).length ++ utf8 s

namespace QueryContinuation

/-- What `encode` writes behind the key generation. -/
def fields (q : QueryContinuation) : Bytes :=
  textField q.queryId ++ (textField q.afterSubject ++ (leBytes 4 q.pageSize.toNat ++
    (textField (q.subjectPrefix.getD "") ++ (leBytes 4 q.partitions.length ++
      (q.partitions.flatMap (fun p => leBytes 4 p.toNat) ++ (readModeByte q.readMode ::
        (optUsizeLe q.remainingLimit ++ optUsizeLe q.remainingMaxDocs)))))))

def body (q : QueryContinuation) (clusterId : Arr 16) (generationId : UInt32) : Bytes :=
  TOKEN_MAGIC ++ (clusterId.1 ++ (leBytes 4 generationId.toNat ++ q.fields))

def encode (D : QueryDigests) (clusterId : Arr 16) (keyring : ContinuationKeyring)
    (q : QueryContinuation) : Except ScanError Bytes :=
  if (utf8 q.afterSubject).length > MAX_SUBJECT_IN_TOKEN then
    throw (.continuationInvalid "after_subject exceeds token budget")
  else if q.partitions.length > MAX_PARTITIONS_IN_TOKEN then
    throw (.continuationInvalid "partition scope exceeds token budget")
  else if q.pageSize = 0 ∨ q.pageSize > MAX_FIND_PAGE_SIZE then
    throw (.continuationInvalid "page_size out of range")
  else
    let body := q.body clusterId keyring.active.generationId
    if body.length + 16 > MAX_TOKEN_BYTES then
      throw (.continuationInvalid "continuation token would exceed size budget")
    else
      let key := keyring.active.macKey D MAC_DOMAIN clusterId.1
      return body ++ (D.keyedHash key body).1.take 16

end QueryContinuation

/-- A token that does not read. -/
def invalid {α : Type} (detail : String) : Step UInt8 ScanError α :=
  throw (.continuationInvalid detail)

def readU32 : Step UInt8 ScanError UInt32 := do
  let cur ← get
  if cur.length < 4 then invalid "token truncated at u32"
  else do
    set (cur.drop 4)
    return UInt32.ofNat (ofLe (cur.take 4))

def readOptUsize : Step UInt8 ScanError (Option UInt64) := do
  let cur ← get
  if cur.length < 8 then invalid "token truncated at u64"
  else do
    set (cur.drop 8)
    let raw := UInt64.ofNat (ofLe (cur.take 8))
    return if raw = 0xFFFF_FFFF_FFFF_FFFF then none else some raw

/-- A length and the bytes it announces. -/
def readField (truncated : String) : Step UInt8 ScanError Bytes := do
  let len ← readU32
  let cur ← get
  if cur.length < len.toNat then invalid truncated
  else do
    set (cur.drop len.toNat)
    return cur.take len.toNat

def readText (truncated notUtf8 : String) : Step UInt8 ScanError String := do
  let raw ← readField truncated
  match fromUtf8 raw with
  | some s => return s
  | none => invalid notUtf8

/-- The subject bound of the query: an empty field is no bound. -/
def readBound : Step UInt8 ScanError (Option String) := do
  let raw ← readField "prefix truncated"
  if raw = [] then return none
  else match fromUtf8 raw with
    | some s => return some s
    | none => invalid "prefix not utf-8"

def readPartitions : Step UInt8 ScanError (List PartitionId) := do
  let pcount ← readU32
  let cur ← get
  if pcount.toNat > MAX_PARTITIONS_IN_TOKEN ∨ cur.length < pcount.toNat * 4 + 1 + 8 + 8 then
    invalid "partition list truncated or too large"
  else do
    let partitions ← times readU32 pcount.toNat
    return sortDedup partitions

def readMode : Step UInt8 ScanError ReadMode := do
  let cur ← get
  match cur with
  | [] => invalid "token missing read_mode"
  | b :: rest => do
    let mode ← (readModeFromByte b : Except ScanError ReadMode)
    set rest
    return mode

namespace QueryContinuation

/-- What `decode` reads behind the key generation. -/
def readFields : Step UInt8 ScanError QueryContinuation := do
  let queryId ← readText "query_id truncated" "query_id not utf-8"
  let afterSubject ← readText "after_subject truncated" "after_subject not utf-8"
  let pageSize ← readU32
  if pageSize = 0 ∨ pageSize.toUInt64 > MAX_FIND_PAGE_SIZE then invalid "page_size invalid"
  else do
    let subjectPrefix ← readBound
    let partitions ← readPartitions
    let readMode ← Residiuum.Cluster.readMode
    let remainingLimit ← readOptUsize
    let remainingMaxDocs ← readOptUsize
    let rest ← get
    if rest ≠ [] then invalid "token trailing bytes"
    else return ⟨queryId, afterSubject, pageSize.toUInt64, subjectPrefix, partitions, readMode,
      remainingLimit, remainingMaxDocs⟩

def decode (D : QueryDigests) (clusterId : Arr 16) (keyring : ContinuationKeyring)
    (token : Bytes) : Except ScanError QueryContinuation :=
  if token.length < 8 + 16 + 4 + 4 + 4 + 4 + 4 + 1 + 8 + 8 + 16 ∨
      token.length > MAX_TOKEN_BYTES then
    throw (.continuationInvalid "continuation token length out of range")
  else
    let payload := token.take (token.length - 16)
    let mac := token.drop (token.length - 16)
    if payload.take 8 ≠ TOKEN_MAGIC then
      throw (.continuationInvalid
        ("continuation token magic/version mismatch " ++
          "(need residiuum-query-continuation-v2)"))
    else if slice payload 8 24 ≠ clusterId.1 then
      throw (.continuationInvalid "continuation token cluster_id mismatch")
    else match keyring.macKeyFor D (UInt32.ofNat (ofLe (slice payload 24 28))) MAC_DOMAIN
        clusterId.1 with
      | none => throw (.continuationInvalid "continuation token key generation retired or unknown")
      | some key =>
        if mac ≠ (D.keyedHash key payload).1.take 16 then
          throw (.continuationInvalid
            "continuation token MAC mismatch (tampered, forged, or wrong cluster)")
        else (readFields.run (payload.drop 28)).map Prod.fst

end QueryContinuation

/-! ## Reading a token back -/

section RoundTrip

theorem ok_bind {ε α β : Type} (a : α) (f : α → Except ε β) : (Except.ok a >>= f) = f a := rfl

theorem run_readU32 {n : ℕ} (hn : n < 2 ^ 32) (rest : Bytes) :
    readU32.run (leBytes 4 n ++ rest) = .ok (ofNat n, rest) := by
  have hlen : ¬ (leBytes 4 n ++ rest).length < 4 := by simp
  have htake : (leBytes 4 n ++ rest).take 4 = leBytes 4 n := take_left' (length_leBytes 4 n)
  have hdrop : (leBytes 4 n ++ rest).drop 4 = rest := drop_left' (length_leBytes 4 n)
  have hofLe : ofLe (leBytes 4 n) = n := by
    rw [ofLe_leBytes, Nat.mod_eq_of_lt (by omega)]
  rw [readU32, run_bind, run_get, pure_bind, run_ite, if_neg hlen, run_bind,
    run_set, pure_bind, run_pure, htake, hdrop, hofLe]
  rfl

theorem run_readOptUsize (v : Option UInt64) (rest : Bytes) :
    readOptUsize.run (optUsizeLe v ++ rest) =
      .ok (v.filter (· ≠ 0xFFFF_FFFF_FFFF_FFFF), rest) := by
  have hlen : ¬ (optUsizeLe v ++ rest).length < 8 := by simp [optUsizeLe]
  have htake : (optUsizeLe v ++ rest).take 8 = optUsizeLe v := take_left' (length_leBytes 8 _)
  have hdrop : (optUsizeLe v ++ rest).drop 8 = rest := drop_left' (length_leBytes 8 _)
  rw [readOptUsize, run_bind, run_get, pure_bind, run_ite, if_neg hlen,
    run_bind, run_set, pure_bind, htake, hdrop]
  rw [run_pure, optUsizeLe, ofLe_leBytes_u64]
  cases v with
  | none => rfl
  | some n =>
    rw [getD_some, filter_some]
    by_cases hn : n = 0xFFFF_FFFF_FFFF_FFFF
    · rw [if_pos hn, if_neg (by simpa using hn)]
      rfl
    · rw [if_neg hn, if_pos (by simpa using hn)]
      rfl

theorem run_readField {raw : Bytes} (hraw : raw.length < 2 ^ 32) (truncated : String)
    (rest : Bytes) :
    (readField truncated).run (leBytes 4 raw.length ++ (raw ++ rest)) = .ok (raw, rest) := by
  have hlen : ¬ (raw ++ rest).length < (ofNat raw.length).toNat := by
    rw [toNat_ofNat_of_lt' hraw, length_append]
    omega
  rw [readField, run_bind, run_readU32 hraw, ok_bind]
  rw [run_bind, run_get, pure_bind, run_ite, if_neg hlen, run_bind,
    run_set, pure_bind, run_pure, toNat_ofNat_of_lt' hraw, take_left,
    drop_left]
  rfl

theorem run_readText (hs : (utf8 s).length < 2 ^ 32) (truncated notUtf8 : String) (rest : Bytes) :
    (readText truncated notUtf8).run (textField s ++ rest) = .ok (s, rest) := by
  rw [textField, append_assoc, readText, run_bind, run_readField hs, ok_bind]
  rw [fromUtf8_utf8]
  rfl

theorem run_readBound {bound : Option String} (hbound : (utf8 (bound.getD "")).length < 2 ^ 32)
    (rest : Bytes) :
    readBound.run (textField (bound.getD "") ++ rest) = .ok (bound.filter (· ≠ ""), rest) := by
  rw [textField, append_assoc, readBound, run_bind, run_readField hbound, ok_bind]
  rw [run_ite]
  cases bound with
  | none => exact if_pos rfl
  | some s =>
    rw [getD_some, filter_some, fromUtf8_utf8]
    by_cases hs : s = ""
    · rw [if_pos (utf8_eq_nil.mpr hs), if_neg (by simpa using hs)]
      rfl
    · rw [if_neg (utf8_eq_nil.not.mpr hs), if_pos (by simpa using hs)]
      rfl

theorem run_times_readU32 (ps : List PartitionId) (rest : Bytes) :
    (times readU32 ps.length).run (ps.flatMap (fun p => leBytes 4 p.toNat) ++ rest) =
      .ok (ps, rest) := by
  induction ps with
  | nil => rfl
  | cons p ps ih =>
    rw [flatMap_cons, append_assoc, length_cons, times, run_bind,
      run_readU32 p.toNat_lt, ok_bind]
    rw [run_bind, ih, ok_bind]
    rw [UInt32.ofNat_toNat]
    rfl

theorem length_flatMap_leBytes (ps : List PartitionId) :
    (ps.flatMap fun p => leBytes 4 p.toNat).length = ps.length * 4 := by
  induction ps with
  | nil => rfl
  | cons p ps ih =>
    rw [flatMap_cons, length_append, length_leBytes, ih, length_cons]
    omega

theorem run_readPartitions {ps : List PartitionId} (hps : ps.length ≤ MAX_PARTITIONS_IN_TOKEN)
    {rest : Bytes} (hrest : 17 ≤ rest.length) :
    readPartitions.run (leBytes 4 ps.length ++ (ps.flatMap (fun p => leBytes 4 p.toNat) ++ rest)) =
      .ok (sortDedup ps, rest) := by
  have hlt : ps.length < 2 ^ 32 := lt_of_le_of_lt hps (by decide)
  have hcheck : ¬ ((ofNat ps.length).toNat > MAX_PARTITIONS_IN_TOKEN ∨
      (ps.flatMap (fun p => leBytes 4 p.toNat) ++ rest).length <
        (ofNat ps.length).toNat * 4 + 1 + 8 + 8) := by
    rw [toNat_ofNat_of_lt' hlt, length_append, length_flatMap_leBytes]
    omega
  rw [readPartitions, run_bind, run_readU32 hlt, ok_bind]
  rw [run_bind, run_get, pure_bind, run_ite, if_neg hcheck, run_bind,
    toNat_ofNat_of_lt' hlt, run_times_readU32, ok_bind]
  rfl

theorem run_readMode (mode : ReadMode) (rest : Bytes) :
    readMode.run (readModeByte mode :: rest) = .ok (mode, rest) := by
  cases mode <;> rfl

namespace QueryContinuation

/-- What a token keeps of a continuation: an empty subject bound is none, the highest count is
unbounded, and the scope is sorted. -/
def normal (q : QueryContinuation) : QueryContinuation :=
  { q with
    subjectPrefix := q.subjectPrefix.filter (· ≠ "")
    partitions := sortDedup q.partitions
    remainingLimit := q.remainingLimit.filter (· ≠ 0xFFFF_FFFF_FFFF_FFFF)
    remainingMaxDocs := q.remainingMaxDocs.filter (· ≠ 0xFFFF_FFFF_FFFF_FFFF) }

/-- The fields fit a token. -/
structure Fits (q : QueryContinuation) : Prop where
  subject : (utf8 q.afterSubject).length ≤ MAX_SUBJECT_IN_TOKEN
  scope : q.partitions.length ≤ MAX_PARTITIONS_IN_TOKEN
  size : 28 + q.fields.length + 16 ≤ MAX_TOKEN_BYTES

variable {D : QueryDigests} {clusterId : Arr 16} {keyring : ContinuationKeyring}
  {q : QueryContinuation}

theorem length_body (generationId : UInt32) :
    (q.body clusterId generationId).length = 28 + q.fields.length := by
  have hmagic : TOKEN_MAGIC.length = 8 := by decide
  rw [body, length_append, length_append, length_append, hmagic, clusterId.2,
    length_leBytes]
  omega

theorem text_le_fields :
    (utf8 q.queryId).length ≤ q.fields.length ∧
      (utf8 (q.subjectPrefix.getD "")).length ≤ q.fields.length := by
  unfold fields textField
  simp only [length_append, length_cons]
  omega

theorem run_readFields (hpos : q.pageSize ≠ 0) (hmax : q.pageSize ≤ MAX_FIND_PAGE_SIZE)
    (hfits : q.Fits) : readFields.run q.fields = .ok (q.normal, []) := by
  obtain ⟨hquery, hbound⟩ := text_le_fields (q := q)
  have hsize := hfits.size
  have hsubject := hfits.subject
  unfold MAX_TOKEN_BYTES at hsize
  unfold MAX_SUBJECT_IN_TOKEN at hsubject
  have hpage : q.pageSize.toNat < 2 ^ 32 :=
    lt_of_le_of_lt (UInt64.le_iff_toNat_le.mp hmax) (by decide)
  have hpage64 : (ofNat q.pageSize.toNat).toUInt64 = q.pageSize := by
    rw [← UInt64.toNat_inj, toNat_toUInt64, toNat_ofNat_of_lt' hpage]
  have hcheck : ¬ (ofNat q.pageSize.toNat = 0 ∨
      (ofNat q.pageSize.toNat).toUInt64 > MAX_FIND_PAGE_SIZE) := by
    rw [hpage64, not_or]
    refine ⟨fun hzero => hpos ?_, UInt64.not_lt.mpr hmax⟩
    rw [← hpage64, hzero]
    rfl
  unfold readFields fields
  rw [run_bind, run_readText (by omega), ok_bind]
  rw [run_bind, run_readText (by omega), ok_bind]
  rw [run_bind, run_readU32 hpage, ok_bind]
  rw [run_ite, if_neg hcheck, run_bind, run_readBound (by omega), ok_bind]
  rw [run_bind, run_readPartitions hfits.scope (by simp [optUsizeLe]), ok_bind]
  rw [run_bind, run_readMode, ok_bind]
  rw [run_bind, run_readOptUsize, ok_bind]
  rw [run_bind, ← append_nil (optUsizeLe q.remainingMaxDocs), run_readOptUsize, ok_bind]
  rw [run_bind, run_get, pure_bind, run_ite, if_neg (by simp), hpage64]
  rfl

theorem encode_of_fits (D : QueryDigests) (clusterId : Arr 16) (keyring : ContinuationKeyring)
    (hpos : q.pageSize ≠ 0) (hmax : q.pageSize ≤ MAX_FIND_PAGE_SIZE) (hfits : q.Fits) :
    encode D clusterId keyring q =
      .ok (q.body clusterId keyring.active.generationId ++
        (D.keyedHash (keyring.active.macKey D MAC_DOMAIN clusterId.1)
          (q.body clusterId keyring.active.generationId)).1.take 16) := by
  have hsize : ¬ (q.body clusterId keyring.active.generationId).length + 16 > MAX_TOKEN_BYTES := by
    rw [length_body]
    exact Nat.not_lt.mpr hfits.size
  have hrange : ¬ (q.pageSize = 0 ∨ q.pageSize > MAX_FIND_PAGE_SIZE) :=
    not_or.mpr ⟨hpos, UInt64.not_lt.mpr hmax⟩
  rw [encode, if_neg (Nat.not_lt.mpr hfits.subject), if_neg (Nat.not_lt.mpr hfits.scope),
    if_neg hrange]
  rw [if_neg hsize]
  rfl

theorem decode_encode (hpos : q.pageSize ≠ 0) (hmax : q.pageSize ≤ MAX_FIND_PAGE_SIZE)
    (hfits : q.Fits) {token : Bytes} (htoken : encode D clusterId keyring q = .ok token) :
    decode D clusterId keyring token = .ok q.normal := by
  rw [encode_of_fits D clusterId keyring hpos hmax hfits] at htoken
  cases htoken
  set body := q.body clusterId keyring.active.generationId with hbody
  have hlen : body.length = 28 + q.fields.length := length_body _
  have hmac (key : Arr 32) : ((D.keyedHash key body).1.take 16).length = 16 := by
    rw [length_take, (D.keyedHash key body).2]
    rfl
  have hfields : 37 ≤ q.fields.length := by
    unfold fields textField optUsizeLe
    simp only [length_append, length_cons, length_leBytes]
    omega
  have hsize := hfits.size
  have hmagic : TOKEN_MAGIC.length = 8 := by decide
  have hhead : body.take 8 = TOKEN_MAGIC := take_left' hmagic
  have hcluster : slice body 8 24 = clusterId.1 :=
    slice_middle _ _ _ hmagic (by rw [clusterId.2])
  have hgeneration : slice body 24 28 = leBytes 4 keyring.active.generationId.toNat := by
    rw [hbody, QueryContinuation.body, ← append_assoc]
    refine slice_middle _ _ _ ?_ (by rw [length_leBytes])
    rw [length_append, hmagic, clusterId.2]
  have hrest : body.drop 28 = q.fields := by
    rw [hbody, QueryContinuation.body, ← append_assoc, ← append_assoc]
    refine drop_left' ?_
    rw [length_append, length_append, hmagic, clusterId.2, length_leBytes]
  have hkey : keyring.macKeyFor D (ofNat (ofLe (slice body 24 28))) MAC_DOMAIN clusterId.1 =
      some (keyring.active.macKey D MAC_DOMAIN clusterId.1) := by
    rw [hgeneration, ofLe_leBytes_u32]
    exact if_pos rfl
  rw [decode, if_neg (by rw [length_append, hmac, hlen]; omega)]
  rw [length_append, hmac, Nat.add_sub_cancel, take_left, drop_left]
  rw [if_neg (not_not.mpr hhead), if_neg (not_not.mpr hcluster), hkey]
  dsimp only
  rw [if_neg (not_not.mpr rfl), hrest, run_readFields hpos hmax hfits]
  rfl

end QueryContinuation

end RoundTrip

end Residiuum.Cluster
