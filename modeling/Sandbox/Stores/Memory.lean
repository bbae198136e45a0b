import Sandbox.Stores.Operations
import Sandbox.Ttl.Observation

/-!
# The Stores in Memory

`MemoryKeyValueStore`, `MemorySetStore` and `MemoryCounterStore` keep their
entries in a JavaScript map. An entry whose time has elapsed is deleted when
it is looked at, and every 256th write sweeps out all of them.

Neither can be seen. A store shows the map that results from the same
operations without any forgetting: what a sweep or a look deletes is dead,
and dead entries are not found.

## Main definitions

* `MemoryKeyValueStore`, `MemorySetStore`, `MemoryCounterStore`: The
  classes, with their entries and their number of writes.
* `sweep`: Delete every entry that has ended.
* `ShowsEntries`: The entries show a map.

## Theorems

* `showsEntries_sweep`, `showsEntries_drop`: Sweeping and dropping a dead
  entry are unobservable.
* `MemoryKeyValueStore.apply_onMap`, `MemorySetStore.apply_onMap`,
  `MemoryCounterStore.apply_onMap`: An operation answers as on the map.
-/

namespace Sandbox.Stores

open Ttl (Entry Map Sets Shows)

/-- `SWEEP_EVERY` -/
def sweepEvery : Nat := 256

/-- `sweep` -/
def sweep {β : Type} (entries : Map String β) (now : Int) : Map String β :=
  fun key => match entries key with
    | none => none
    | some entry => if entry.expiresAt ≤ now then none else some entry

/-- What the stores do after a write: every 256th one sweeps. -/
def swept {β : Type} (entries : Map String β) (writes : Nat) (now : Int) : Map String β :=
  if writes % sweepEvery = 0 then sweep entries now else entries

/-- What `live` of the stores does: find an entry, and delete it if it has
    ended. -/
def look {β : Type} (entries : Map String β) (now : Int) (key : String) :
    Option (Entry β) × Map String β :=
  match entries key with
  | none => (none, entries)
  | some entry =>
      if entry.expiresAt ≤ now then (none, Ttl.delete entries key) else (some entry, entries)

structure MemoryKeyValueStore (α : Type) where
  entries : Map String α
  writes : Nat

structure MemorySetStore where
  sets : Sets String String
  writes : Nat

structure MemoryCounterStore where
  counters : Map String Nat
  writes : Nat

namespace MemoryKeyValueStore

variable {α : Type}

def empty : MemoryKeyValueStore α := ⟨Ttl.empty, 0⟩

def live (store : MemoryKeyValueStore α) (now : Int) (key : String) :
    Option (Entry α) × MemoryKeyValueStore α :=
  let (entry, entries) := look store.entries now key
  (entry, { store with entries := entries })

def write (store : MemoryKeyValueStore α) (now : Int) (key : String) (entry : Entry α) :
    MemoryKeyValueStore α :=
  let writes := store.writes + 1
  ⟨swept (Ttl.put store.entries key entry) writes now, writes⟩

def get (store : MemoryKeyValueStore α) (now : Int) (key : String) :
    Option α × MemoryKeyValueStore α :=
  let (entry, store) := store.live now key
  (entry.map (·.value), store)

def set (store : MemoryKeyValueStore α) (now : Int) (key : String) (value : α)
    (ttlSeconds : Int) : MemoryKeyValueStore α :=
  store.write now key ⟨value, now + ttlSeconds⟩

def update (store : MemoryKeyValueStore α) (now : Int) (key : String) (value : α) :
    Bool × MemoryKeyValueStore α :=
  match store.live now key with
  | (none, store) => (false, store)
  | (some entry, store) =>
      (true, { store with entries := Ttl.put store.entries key ⟨value, entry.expiresAt⟩ })

def delete (store : MemoryKeyValueStore α) (key : String) : MemoryKeyValueStore α :=
  { store with entries := Ttl.delete store.entries key }

def getAndDelete (store : MemoryKeyValueStore α) (now : Int) (key : String) :
    Option α × MemoryKeyValueStore α :=
  let (entry, store) := store.live now key
  (entry.map (·.value), store.delete key)

def setIfAbsent (store : MemoryKeyValueStore α) (now : Int) (key : String) (value : α)
    (ttlSeconds : Int) : Bool × MemoryKeyValueStore α :=
  match store.live now key with
  | (some _, store) => (false, store)
  | (none, store) => (true, store.write now key ⟨value, now + ttlSeconds⟩)

def apply (store : MemoryKeyValueStore α) (now : Int) :
    KeyValueOp α → Reply α × MemoryKeyValueStore α
  | .get key =>
      let (found, store) := store.get now key
      (.value found, store)
  | .set key value ttlSeconds => (.done, store.set now key value ttlSeconds)
  | .update key value =>
      let (written, store) := store.update now key value
      (.flag written, store)
  | .delete key => (.done, store.delete key)
  | .getAndDelete key =>
      let (found, store) := store.getAndDelete now key
      (.value found, store)
  | .setIfAbsent key value ttlSeconds =>
      let (written, store) := store.setIfAbsent now key value ttlSeconds
      (.flag written, store)

end MemoryKeyValueStore

namespace MemorySetStore

variable {α : Type}

def empty : MemorySetStore := ⟨Ttl.empty, 0⟩

def live (store : MemorySetStore) (now : Int) (key : String) :
    Option (Entry (List String)) × MemorySetStore :=
  let (entry, sets) := look store.sets now key
  (entry, { store with sets := sets })

/-- `Set.prototype.add` -/
def insert (members : List String) (member : String) : List String :=
  if member ∈ members then members else members ++ [member]

def add (store : MemorySetStore) (now : Int) (key member : String) (ttlSeconds : Int) :
    MemorySetStore :=
  let (entry, store) := store.live now key
  let members := insert ((entry.map (·.value)).getD []) member
  let writes := store.writes + 1
  ⟨swept (Ttl.put store.sets key ⟨members, now + ttlSeconds⟩) writes now, writes⟩

/-- The members are changed in place, so the entry keeps its end. -/
def remove (store : MemorySetStore) (now : Int) (key member : String) : MemorySetStore :=
  match store.live now key with
  | (none, store) => store
  | (some entry, store) =>
      let members := entry.value.filter (· ≠ member)
      { store with sets := Ttl.put store.sets key ⟨members, entry.expiresAt⟩ }

def members (store : MemorySetStore) (now : Int) (key : String) :
    List String × MemorySetStore :=
  let (entry, store) := store.live now key
  ((entry.map (·.value)).getD [], store)

def delete (store : MemorySetStore) (key : String) : MemorySetStore :=
  { store with sets := Ttl.delete store.sets key }

def apply (store : MemorySetStore) (now : Int) : SetOp → Reply α × MemorySetStore
  | .add key member ttlSeconds => (.done, store.add now key member ttlSeconds)
  | .remove key member => (.done, store.remove now key member)
  | .members key =>
      let (members, store) := store.members now key
      (.members members, store)
  | .delete key => (.done, store.delete key)

end MemorySetStore

namespace MemoryCounterStore

variable {α : Type}

def empty : MemoryCounterStore := ⟨Ttl.empty, 0⟩

/-- The first count of a window. -/
def start (store : MemoryCounterStore) (now : Int) (key : String) (ttlSeconds : Int) :
    Nat × MemoryCounterStore :=
  let writes := store.writes + 1
  (1, ⟨swept (Ttl.put store.counters key ⟨1, now + ttlSeconds⟩) writes now, writes⟩)

def increment (store : MemoryCounterStore) (now : Int) (key : String) (ttlSeconds : Int) :
    Nat × MemoryCounterStore :=
  match store.counters key with
  | none => store.start now key ttlSeconds
  | some entry =>
      if entry.expiresAt ≤ now then store.start now key ttlSeconds
      else
        let value := entry.value + 1
        (value, { store with counters := Ttl.put store.counters key ⟨value, entry.expiresAt⟩ })

def apply (store : MemoryCounterStore) (now : Int) :
    CounterOp → Reply α × MemoryCounterStore
  | .increment key ttlSeconds =>
      let (value, store) := store.increment now key ttlSeconds
      (.count value, store)

end MemoryCounterStore

section Forgetting

variable {β : Type} {entries : Map String β} {map : Map String β} {now : Int}

/-- The entries are read as they are. -/
def ShowsEntries (now : Int) (entries map : Map String β) : Prop :=
  Shows some now (Ttl.live entries) map

theorem ShowsEntries.live (h : ShowsEntries now entries map) (key : String) :
    Ttl.live entries now key = Ttl.live map now key := by
  rw [h.now_read key, Option.bind_fun_some]

theorem showsEntries_put (h : ShowsEntries now entries map) (key : String) (entry : Entry β) :
    ShowsEntries now (Ttl.put entries key entry) (Ttl.put map key entry) :=
  Shows.put h key entry fun later _ k => Ttl.live_put entries later k key entry

theorem showsEntries_delete (h : ShowsEntries now entries map) (key : String) :
    ShowsEntries now (Ttl.delete entries key) (Ttl.delete map key) :=
  Shows.delete h key fun later _ k => Ttl.live_delete entries later k key

/-- A sweep deletes what nobody finds any more. -/
theorem showsEntries_sweep (h : ShowsEntries now entries map) :
    ShowsEntries now (sweep entries now) map := by
  refine Shows.congr h fun later hlater key => ?_
  unfold Ttl.live sweep
  cases entries key with
  | none => rfl
  | some entry =>
      by_cases he : entry.expiresAt ≤ now
      · have hlate : entry.expiresAt ≤ later := by omega
        simp only [if_pos he, if_pos hlate]
      · simp only [if_neg he]

/-- So does dropping an entry that has ended. -/
theorem showsEntries_drop (h : ShowsEntries now entries map) {key : String} {entry : Entry β}
    (hentry : entries key = some entry) (hend : entry.expiresAt ≤ now) :
    ShowsEntries now (Ttl.delete entries key) map := by
  refine Shows.congr h fun later hlater k => ?_
  rw [Ttl.live_delete]
  by_cases hk : k = key
  · subst hk
    have hlate : entry.expiresAt ≤ later := by omega
    simp only [if_true, Ttl.live, hentry, if_pos hlate]
  · rw [if_neg hk]

theorem showsEntries_swept (h : ShowsEntries now entries map) (writes : Nat) :
    ShowsEntries now (swept entries writes now) map := by
  unfold swept
  by_cases hw : writes % sweepEvery = 0
  · rw [if_pos hw]
    exact showsEntries_sweep h
  · rw [if_neg hw]
    exact h

/-- Looking at a key finds what is alive, and what it deletes is dead. -/
theorem look_shows (h : ShowsEntries now entries map) (key : String) :
    (look entries now key).1 = Ttl.live map now key ∧
      ShowsEntries now (look entries now key).2 map := by
  rw [← h.live key]
  unfold look Ttl.live
  cases hentry : entries key with
  | none => exact ⟨rfl, h⟩
  | some entry =>
      by_cases he : entry.expiresAt ≤ now
      · simp only [if_pos he]
        exact ⟨trivial, showsEntries_drop h hentry he⟩
      · simp only [if_neg he]
        exact ⟨trivial, h⟩

end Forgetting

namespace MemoryKeyValueStore

variable {α : Type} {store : MemoryKeyValueStore α} {map : Map String α} {now : Int}

theorem write_shows (h : ShowsEntries now store.entries map) (key : String) (entry : Entry α) :
    ShowsEntries now (store.write now key entry).entries (Ttl.put map key entry) :=
  showsEntries_swept (showsEntries_put h key entry) (store.writes + 1)

/-- An operation answers as on the map, and the entries show the new map. -/
theorem apply_onMap (h : ShowsEntries now store.entries map) (op : KeyValueOp α) :
    (store.apply now op).1 = (op.onMap map now).1 ∧
      ShowsEntries now (store.apply now op).2.entries (op.onMap map now).2 := by
  cases op with
  | get key =>
      rcases look_shows h key with ⟨hlook, hshows⟩
      refine ⟨?_, hshows⟩
      simp only [apply, get, live, KeyValueOp.onMap, Ttl.get, hlook]
  | set key value ttlSeconds => exact ⟨rfl, write_shows h key _⟩
  | update key value =>
      rcases look_shows h key with ⟨hlook, hshows⟩
      simp only [apply, update, live, KeyValueOp.onMap, Ttl.update, ← hlook]
      cases (look store.entries now key).1 with
      | none => exact ⟨rfl, hshows⟩
      | some entry => exact ⟨rfl, showsEntries_put hshows key _⟩
  | delete key => exact ⟨rfl, showsEntries_delete h key⟩
  -- A look-up drops an entry that has expired, which the map does not show.
  | getAndDelete key =>
      rcases look_shows h key with ⟨hlook, hshows⟩
      refine ⟨?_, showsEntries_delete hshows key⟩
      simp only [apply, getAndDelete, live, KeyValueOp.onMap, Ttl.getAndDelete, Ttl.get, hlook]
  | setIfAbsent key value ttlSeconds =>
      rcases look_shows h key with ⟨hlook, hshows⟩
      simp only [apply, setIfAbsent, live, KeyValueOp.onMap, Ttl.setIfAbsent, ← hlook]
      cases (look store.entries now key).1 with
      | none =>
          exact ⟨rfl, showsEntries_swept (showsEntries_put hshows key _) _⟩
      | some entry => exact ⟨rfl, hshows⟩

end MemoryKeyValueStore

namespace MemorySetStore

variable {α : Type} {store : MemorySetStore} {map : Sets String String} {now : Int}

theorem apply_onMap (h : ShowsEntries now store.sets map) (op : SetOp) :
    ((store.apply now op).1 : Reply α) = (op.onMap map now).1 ∧
      ShowsEntries now (store.apply now op : Reply α × MemorySetStore).2.sets
        (op.onMap map now : Reply α × Sets String String).2 := by
  cases op with
  | add key member ttlSeconds =>
      rcases look_shows h key with ⟨hlook, hshows⟩
      refine ⟨rfl, showsEntries_swept ?_ _⟩
      -- The members added to are those of the set that is alive on the map.
      have hmap : Ttl.add map now key member ttlSeconds = Ttl.put map key
          ⟨insert (((look store.sets now key).1.map (·.value)).getD []) member,
            now + ttlSeconds⟩ := by
        rw [hlook]
        rfl
      show ShowsEntries now _ (Ttl.add map now key member ttlSeconds)
      rw [hmap]
      exact showsEntries_put hshows key _
  | remove key member =>
      rcases look_shows h key with ⟨hlook, hshows⟩
      refine ⟨rfl, ?_⟩
      simp only [apply, remove, live, SetOp.onMap, Ttl.remove, ← hlook]
      cases (look store.sets now key).1 with
      | none => exact hshows
      | some entry => exact showsEntries_put hshows key _
  | members key =>
      rcases look_shows h key with ⟨hlook, hshows⟩
      refine ⟨?_, hshows⟩
      simp only [apply, MemorySetStore.members, live, SetOp.onMap, Ttl.members, Ttl.get, hlook]
  | delete key => exact ⟨rfl, showsEntries_delete h key⟩

end MemorySetStore

namespace MemoryCounterStore

variable {α : Type} {store : MemoryCounterStore} {map : Map String Nat} {now : Int}

theorem apply_onMap (h : ShowsEntries now store.counters map) (op : CounterOp) :
    ((store.apply now op).1 : Reply α) = (op.onMap map now).1 ∧
      ShowsEntries now (store.apply now op : Reply α × MemoryCounterStore).2.counters
        (op.onMap map now : Reply α × Map String Nat).2 := by
  cases op with
  | increment key ttlSeconds =>
      have hstart : ShowsEntries now (store.start now key ttlSeconds).2.counters
          (Ttl.set map now key 1 ttlSeconds) :=
        showsEntries_swept (showsEntries_put h key _) _
      have hlive := h.live key
      simp only [apply, increment, CounterOp.onMap, Ttl.increment, ← hlive]
      unfold Ttl.live
      -- No entry or a dead one: the count begins again at one.
      cases hentry : store.counters key with
      | none => exact ⟨rfl, hstart⟩
      | some entry =>
          by_cases he : entry.expiresAt ≤ now
          · simp only [if_pos he]
            exact ⟨rfl, hstart⟩
          · simp only [if_neg he]
            exact ⟨trivial, showsEntries_put h key _⟩

end MemoryCounterStore

end Sandbox.Stores
