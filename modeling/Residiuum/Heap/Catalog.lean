import Mathlib.Data.List.Dedup
import Mathlib.Data.List.Sort
import Residiuum.Lib.Bytes
import Residiuum.Lib.Parse
import Residiuum.Lib.Replay

/-!
# Names in the collection catalog of a heap

Collections are created, renamed and retired. The catalog lists the tips of their descriptor chains
in the order of the object ids, and three readers look names up in it.

* `Reaches`: the catalogs of runs; **`reaches_apart`**: names of live collections stay apart.
* **`names_resolve`**: the readers find live collections exactly when none was retired.
-/

namespace Residiuum.Heap

open ByteLib List Option ReplayLib Std

/-- States of a collection. -/
inductive ObjectDescriptorState
  | active
  | retired
  deriving DecidableEq

/-- The tip of a descriptor chain; names are their UTF-8 bytes. -/
structure ObjectCatalogEntry where
  objectId : Arr 16
  name : Bytes
  aliases : List Bytes
  state : ObjectDescriptorState
  deriving DecidableEq

abbrev Catalog : Type := List ObjectCatalogEntry

namespace ObjectCatalogEntry

def carries (e : ObjectCatalogEntry) (name : Bytes) : Bool :=
  e.name = name || e.aliases.any (· = name)

/-- The prior name becomes an alias; the aliases are a `BTreeSet`. -/
def rename (newName : Bytes) (prev : ObjectCatalogEntry) : ObjectCatalogEntry :=
  { prev with
    name := newName
    aliases := ((prev.name :: prev.aliases).dedup.filter (· ≠ newName)).mergeSort (· ≤ ·) }

end ObjectCatalogEntry

open ObjectCatalogEntry

section Operations

-- `encode` is the outcome of `encode_object_frame` and of the writes.
variable (encode : ObjectCatalogEntry → Except String Unit) (c : Catalog)

/-- The test of `assert_name_free`. -/
def nameTaken (name : Bytes) (except : Option (Arr 16)) : Bool :=
  c.any fun e => except ≠ some e.objectId && e.state ≠ .retired && e.carries name

def createObject (objectId : Arr 16) (name : Bytes) : Except String Catalog :=
  let e : ObjectCatalogEntry := ⟨objectId, name, [], .active⟩
  if c.any (·.objectId = objectId) then .error "object id already exists"
  else if nameTaken c name none then .error "name/alias conflict"
  else (encode e).map fun _ => c.orderedInsert (·.objectId.1 ≤ ·.objectId.1) e

/-- Append the next descriptor to a chain. -/
def writeNext (objectId : Arr 16) (next : ObjectCatalogEntry → ObjectCatalogEntry) :
    Except String Catalog :=
  match c.find? (·.objectId = objectId) with
  | none => .error "object not published"
  | some prev => (encode (next prev)).map fun _ =>
    c.map fun e => if e.objectId = objectId then next e else e

def renameObject (objectId : Arr 16) (newName : Bytes) : Except String Catalog :=
  if nameTaken c newName (some objectId) then .error "name/alias conflict"
  else writeNext encode c objectId (rename newName)

def retireObject (objectId : Arr 16) : Except String Catalog :=
  writeNext encode c objectId ({ · with state := .retired })

end Operations

/-- The catalog after successful operations, and whether one of them retired a collection. -/
inductive Reaches : Bool → Catalog → Prop
  | empty : Reaches false []
  | create {encode r c c' id name} : Reaches r c → createObject encode c id name = .ok c' →
    Reaches r c'
  | rename {encode r c c' id name} : Reaches r c → renameObject encode c id name = .ok c' →
    Reaches r c'
  | retire {encode r c c' id} : Reaches r c → retireObject encode c id = .ok c' → Reaches true c'

section Readers

variable (c : Catalog)

/-- `CollectionId::from_bytes_unchecked_nonzero`. -/
def collectionId (id : Arr 16) : Option (Arr 16) := if id = zeros 16 then none else some id

def dispatchCollectionOpen (name : Bytes) : Option (Arr 16 × Bytes) :=
  if name ≠ [] ∧ name.length ≤ 256 then
    (c.find? (·.name = name)).bind fun e => (collectionId e.objectId).map (·, e.name)
  else none

/-- The first entry that carries a name. -/
def lookupNamed (name : Bytes) : Option (Arr 16 × Bytes) :=
  (c.find? (·.carries name)).map fun e => (e.objectId, e.name)

/-- The bindings of `query_catalog`; a later entry replaces an earlier one of its name. -/
def queryCatalog : Option (TreeMap Bytes (Arr 16)) :=
  if c.any fun e => collectionId e.objectId = none then none
  else some (c.foldl (fun bindings e => bindings.insert e.name e.objectId) ∅)

/-- `CollectionBindings::resolve` on them. -/
def resolveQuery (name : Bytes) : Option (Arr 16) := (queryCatalog c).bind (·[name]?)

/-- A live collection with the property has the id. -/
def IsLive (p : ObjectCatalogEntry → Prop) (id : Arr 16) : Prop :=
  ∃ e ∈ c, e.objectId = id ∧ e.state = .active ∧ p e

/-- Every name that a reader resolves leads to a live collection that carries it. -/
structure Resolves : Prop where
  opened : ∀ name r, dispatchCollectionOpen c name = some r → IsLive c (·.name = name) r.1
  lookedUp : ∀ name r, lookupNamed c name = some r → IsLive c (·.carries name) r.1
  bound : ∀ name id, resolveQuery c name = some id → IsLive c (·.name = name) id

end Readers

/-- Distinct ids, and no name or alias in common while both are live. -/
def Apart (a b : ObjectCatalogEntry) : Prop :=
  a.objectId ≠ b.objectId ∧
    (a.state = .active → b.state = .active → ∀ name, a.carries name → ¬b.carries name)

variable {encode : ObjectCatalogEntry → Except String Unit} {c c' : Catalog}
  {a b e : ObjectCatalogEntry} {name : Bytes} {id : Arr 16} {r : Bool}

theorem Apart.symm (h : Apart a b) : Apart b a :=
  ⟨h.1.symm, fun hb ha n hbn han => h.2 ha hb n han hbn⟩

theorem not_carries_of_free {except : Option (Arr 16)} (h : ¬nameTaken c name except)
    (he : e ∈ c) (hid : except ≠ some e.objectId) (hs : e.state = .active) :
    ¬e.carries name := fun hc => h (any_eq_true.mpr ⟨e, he, by simp [hid, hs, hc]⟩)

theorem writeNext_apart {next : ObjectCatalogEntry → ObjectCatalogEntry} (h : c.Pairwise Apart)
    (hw : writeNext encode c id next = .ok c')
    (hnext : ∀ a, ∀ b ∈ c, b.objectId ≠ id → Apart a b → Apart (next a) b) :
    c'.Pairwise Apart ∧ (∃ e ∈ c, e.objectId = id) ∧
      c' = c.map fun e => if e.objectId = id then next e else e := by
  unfold writeNext at hw
  split at hw
  · cases hw
  next prev hprev =>
  obtain ⟨-, -, rfl⟩ := map_eq_ok.mp hw
  refine ⟨pairwise_map.mpr (h.imp_of_mem fun {a b} ha hb hab => ?_),
    ⟨prev, mem_of_find?_eq_some hprev, of_decide_eq_true (find?_some hprev :)⟩, rfl⟩
  by_cases hia : a.objectId = id <;> by_cases hib : b.objectId = id
  · exact absurd (hia.trans hib.symm) hab.1
  · rw [if_pos hia, if_neg hib]
    exact hnext a b hb hib hab
  · rw [if_neg hia, if_pos hib]
    exact (hnext b a ha hia hab.symm).symm
  · rwa [if_neg hia, if_neg hib]

theorem reaches_apart (h : Reaches r c) :
    c.Pairwise Apart ∧ ((∀ e ∈ c, e.state = .active) ↔ r = false) := by
  induction h with
  | empty => simp
  | @create _ r c _ id name _ hop ih =>
    unfold createObject at hop
    split_ifs at hop with hnew hfree
    obtain ⟨-, -, rfl⟩ := map_eq_ok.mp hop
    have hperm := perm_orderedInsert (fun a b : ObjectCatalogEntry => a.objectId.1 ≤ b.objectId.1)
      ⟨id, name, [], .active⟩ c
    constructor
    · refine (hperm.pairwise_iff Apart.symm).mpr (pairwise_cons.mpr ⟨fun b hb => ?_, ih.1⟩)
      refine ⟨fun hid => hnew (any_eq_true.mpr ⟨b, hb, by simp [← hid]⟩), fun _ hs n hn => ?_⟩
      obtain rfl : name = n := by simpa [carries] using hn
      exact not_carries_of_free hfree hb (by simp) hs
    · simpa [hperm.mem_iff] using ih.2
  | @rename _ r c _ id name _ hop ih =>
    unfold renameObject at hop
    split_ifs at hop with hfree
    obtain ⟨hpairs, -, rfl⟩ := writeNext_apart ih.1 hop fun a b hb hid hab =>
      ⟨hab.1, fun ha hs n hn => by
        by_cases hne : n = name
        · exact hne ▸ not_carries_of_free hfree hb (by simp [hid.symm]) hs
        · exact hab.2 ha hs n (by simpa [carries, rename, hne, Ne.symm hne, @eq_comm _ n] using hn)⟩
    have hstate (e) : (if e.objectId = id then rename name e else e).state = e.state := by
      split <;> rfl
    exact ⟨hpairs, by simpa [hstate] using ih.2⟩
  | retire _ hop ih =>
    obtain ⟨hpairs, ⟨e, he, hid⟩, rfl⟩ := writeNext_apart ih.1 hop fun a b _ _ hab =>
      ⟨hab.1, fun ha => nomatch ha⟩
    refine ⟨hpairs, iff_of_false (fun hall => ?_) nofun⟩
    have := hall _ (mem_map_of_mem he)
    simp [hid] at this

theorem resolveQuery_eq : resolveQuery c name = if c.any fun e => collectionId e.objectId = none
    then none else (lastFor (·.name) name c).map (·.objectId) := by
  unfold resolveQuery queryCatalog
  split
  · rfl
  · refine (lookup_foldl (fun (m : TreeMap Bytes (Arr 16)) k => m[k]?) (fun m e k => ?_) c ∅
      name).trans or_none
    simp [TreeMap.getElem?_insert]

theorem resolves_of_live (h : ∀ e ∈ c, e.state = .active) : Resolves c := by
  refine ⟨fun name r hr => ?_, fun name r hr => ?_, fun name id hid => ?_⟩
  · unfold dispatchCollectionOpen at hr
    split_ifs at hr
    obtain ⟨e, he, hid⟩ := bind_eq_some_iff.mp hr
    obtain ⟨id, hid, rfl⟩ := map_eq_some_iff.mp hid
    obtain ⟨-, rfl⟩ := by simpa [collectionId] using hid
    have hmem := mem_of_find?_eq_some he
    exact ⟨e, hmem, rfl, h e hmem, of_decide_eq_true (find?_some he :)⟩
  · obtain ⟨e, he, rfl⟩ := map_eq_some_iff.mp hr
    have hmem := mem_of_find?_eq_some he
    exact ⟨e, hmem, rfl, h e hmem, (find?_some he :)⟩
  · rw [resolveQuery_eq] at hid
    split_ifs at hid
    obtain ⟨e, he, rfl⟩ := map_eq_some_iff.mp hid
    obtain ⟨hmem, hname⟩ := mem_of_lastFor he
    exact ⟨e, hmem, rfl, h e hmem, hname⟩

/-- The lookup takes the first entry that carries the name of a retired one and the bindings take
the last; both cannot be live. -/
theorem live_of_resolves (h : c.Pairwise Apart) (hids : ∀ e ∈ c, collectionId e.objectId ≠ none)
    (hr : Resolves c) (he : e ∈ c) : e.state = .active := by
  have hlive {p} {e} (he : e ∈ c) : IsLive c p e.objectId → e.state = .active := by
    rintro ⟨e', he', hid, hs, -⟩
    rwa [← inj_on_of_nodup_map (pairwise_map.mpr (h.imp And.left)) he' he hid]
  by_contra hs
  have hfirst := hr.lookedUp e.name
  have hlast := hr.bound e.name
  rw [resolveQuery_eq, if_neg (by simpa using hids)] at hlast
  obtain ⟨before, after, rfl⟩ := append_of_mem he
  rw [lookupNamed, find?_append, find?_cons_of_pos (by simp [carries])] at hfirst
  rw [append_cons, lastFor_append, lastFor_concat, if_pos rfl, ← append_cons] at hlast
  cases hf : before.find? (·.carries e.name) with
  | none =>
    rw [hf] at hfirst
    exact hs (hlive he (hfirst _ rfl))
  | some f =>
    cases hg : lastFor (·.name) e.name after with
    | none =>
      rw [hg] at hlast
      exact hs (hlive he (hlast _ rfl))
    | some g =>
      rw [hf] at hfirst
      rw [hg] at hlast
      have hfmem := mem_of_find?_eq_some hf
      obtain ⟨hgmem, hgname⟩ := mem_of_lastFor hg
      exact ((pairwise_append.mp h).2.2 f hfmem g (by simp [hgmem])).2
        (hlive (by simp [hfmem]) (hfirst _ rfl)) (hlive (by simp [hgmem]) (hlast _ rfl))
        e.name (find?_some hf :) (by simp [carries, hgname])

/-- **Names lead to live collections over every run that retires none**, and only then; the names
of live collections are always apart. -/
theorem names_resolve (h : Reaches r c) :
    c.Pairwise Apart ∧ (r = false → Resolves c) ∧
      ((∀ e ∈ c, collectionId e.objectId ≠ none) → Resolves c → r = false) := by
  obtain ⟨hpairs, hlive⟩ := reaches_apart h
  exact ⟨hpairs, fun hr => resolves_of_live (hlive.mpr hr),
    fun hids hr => hlive.mp fun _ => live_of_resolves hpairs hids hr⟩

theorem reaches_one : Reaches false [⟨toArr 16 [1], [97], [], .active⟩] :=
  .create .empty (rfl : createObject (fun _ => .ok ()) [] (toArr 16 [1]) [97] = _)

/-- Of two collections one is renamed: its prior name still leads to it. -/
theorem names_resolve_two : ∃ c, Reaches false c ∧
    lookupNamed c [97] = some (toArr 16 [1], [99]) ∧
    lookupNamed c [98] = some (toArr 16 [2], [98]) ∧ Resolves c := by
  have hrenamed : renameObject (fun _ => .ok ())
      [⟨toArr 16 [1], [97], [], .active⟩, ⟨toArr 16 [2], [98], [], .active⟩] (toArr 16 [1]) [99] =
        .ok [⟨toArr 16 [1], [99], [[97]], .active⟩, ⟨toArr 16 [2], [98], [], .active⟩] := by
    decide +kernel
  have hcreated : Reaches false
      [⟨toArr 16 [1], [97], [], .active⟩, ⟨toArr 16 [2], [98], [], .active⟩] :=
    .create reaches_one (rfl : createObject (fun _ => .ok ()) _ (toArr 16 [2]) [98] = _)
  have hreaches := Reaches.rename hcreated hrenamed
  exact ⟨_, hreaches, by decide, by decide, (names_resolve hreaches).2.1 rfl⟩

/-- The name of a retired collection is used again; opening it leads to the retired one. -/
theorem retired_name_opens : ∃ c, Reaches true c ∧
    dispatchCollectionOpen c [97] = some (toArr 16 [1], [97]) ∧ ¬Resolves c := by
  have hretired : Reaches true [⟨toArr 16 [1], [97], [], .retired⟩] :=
    .retire reaches_one (rfl : retireObject (fun _ => .ok ()) _ (toArr 16 [1]) = _)
  have hagain : Reaches true
      [⟨toArr 16 [1], [97], [], .retired⟩, ⟨toArr 16 [2], [97], [], .active⟩] :=
    .create hretired (rfl : createObject (fun _ => .ok ()) _ (toArr 16 [2]) [97] = _)
  refine ⟨_, hagain, by decide, fun hr => ?_⟩
  obtain ⟨e, he, hlive⟩ := hr.opened [97] (toArr 16 [1], [97]) (by decide)
  revert e
  decide

end Residiuum.Heap
