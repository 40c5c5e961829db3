import Residiuum.Store.ChunkPayload

/-!
# The primary index

The current state of every subject, as the events applied to it left it. Segment ids stand for
their mint sequence, with `0` for the id of zeros that Atomic entries carry.

* `IndexEntry`, `PrimaryIndex.applyEvent`: an entry is replaced by every event of its subject.
* **`PrimaryIndex.mem_liveEntries`**: the live entries are those the index holds.
-/

namespace Residiuum

open ByteLib
open Std (TreeMap)

/-- Puts and deletes. -/
inductive EventKind
  | put
  | delete
  deriving DecidableEq, Repr

/-- A live entry. -/
structure LiveValue where
  /-- Resident bytes: those of a memory-mode value or a chunk manifest. -/
  body : Bytes
  itemId : Arr 16
  eventId : Arr 16
  segmentId : ℕ
  writerSequence : ℕ
  /-- Offset of the item frame in its segment, `0` when there is none. -/
  frameOffset : ℕ
  deriving DecidableEq, Repr

/-- Live or deleted. -/
inductive IndexEntry
  | live (value : LiveValue)
  | deleted (itemId eventId : Arr 16) (segmentId writerSequence frameOffset : ℕ)
  deriving DecidableEq, Repr

namespace IndexEntry

def itemId : IndexEntry → Arr 16
  | live value => value.itemId
  | deleted itemId .. => itemId

end IndexEntry

/-- An event of a subject. -/
structure IndexEvent where
  subject : Bytes
  kind : EventKind
  body : Bytes
  itemId : Arr 16
  eventId : Arr 16
  segmentId : ℕ
  writerSequence : ℕ
  frameOffset : ℕ
  deriving DecidableEq, Repr

def IndexEvent.entry (e : IndexEvent) : IndexEntry :=
  match e.kind with
  | .put => .live ⟨e.body, e.itemId, e.eventId, e.segmentId, e.writerSequence, e.frameOffset⟩
  | .delete => .deleted e.itemId e.eventId e.segmentId e.writerSequence e.frameOffset

/-- Subject to current state, in the order of subjects. -/
abbrev PrimaryIndex : Type := TreeMap Bytes IndexEntry

def PrimaryIndex.applyEvent (index : PrimaryIndex) (e : IndexEvent) : PrimaryIndex :=
  index.insert e.subject e.entry

def PrimaryIndex.liveEntries (index : PrimaryIndex) : List (Bytes × LiveValue) :=
  index.toList.filterMap fun (subject, entry) =>
    match entry with
    | .live value => some (subject, value)
    | .deleted .. => none

def slimPutBodyForIndex (body : Bytes) (keepFull : Bool) : Bytes :=
  if keepFull || isChunkManifest body then body else []

/-! ## Lookups -/

section Lookup

variable {index : PrimaryIndex} {e : IndexEvent} {k : Bytes}

theorem PrimaryIndex.getElem?_insert (index : PrimaryIndex) (k : Bytes) (entry : IndexEntry)
    (k' : Bytes) : (index.insert k entry)[k']? = if k = k' then some entry else index[k']? := by
  rw [TreeMap.getElem?_insert]
  simp

theorem PrimaryIndex.getElem?_applyEvent (index : PrimaryIndex) (e : IndexEvent) (k : Bytes) :
    (index.applyEvent e)[k]? = if e.subject = k then some e.entry else index[k]? :=
  index.getElem?_insert e.subject e.entry k

theorem PrimaryIndex.applyEvent_eq_some {entry : IndexEntry}
    (h : (index.applyEvent e)[k]? = some entry) :
    e.subject = k ∧ e.entry = entry ∨ e.subject ≠ k ∧ index[k]? = some entry := by
  rw [getElem?_applyEvent] at h
  split at h
  · rename_i heq
    exact .inl ⟨heq, Option.some.inj h⟩
  · rename_i hne
    exact .inr ⟨hne, h⟩

theorem PrimaryIndex.mem_liveEntries {value : LiveValue} :
    (k, value) ∈ index.liveEntries ↔ index[k]? = some (.live value) := by
  rw [liveEntries, List.mem_filterMap]
  constructor
  · rintro ⟨⟨k', entry⟩, hmem, hlive⟩
    cases entry with
    | live value' =>
      cases hlive
      exact TreeMap.mem_toList_iff_getElem?_eq_some.mp hmem
    | deleted => exact absurd hlive (by simp)
  · intro h
    exact ⟨(k, .live value), TreeMap.mem_toList_iff_getElem?_eq_some.mpr h, rfl⟩

end Lookup

end Residiuum
