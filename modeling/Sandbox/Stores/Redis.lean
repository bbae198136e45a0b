import Mathlib
import Sandbox.Stores.Operations
import Sandbox.Ttl.Observation

/-!
# The Stores in Redis

`RedisKeyValueStore`, `RedisSetStore` and `RedisCounterStore` send commands
to one database. A key of a store becomes `prefix:key`. Values are sent as
JSON text, counts are kept as decimal text, and a set that loses its last
member disappears with its time to live.

The commands behave as Redis documents them. A key whose time to live has
elapsed does not exist for any command, `KEEPTTL` and `INCR` keep the time of
the key they change, and `EXPIRE NX` gives a time only to a key that has
none. The members of a set come in the order the server chooses, which may
change from one call to the next.

A store shows the map that results from the same operations, through an
encoding: the text of a value, the members of a nonempty set, the digits of a
count. A set without members shows as no key at all.

## Main definitions

* `Database`, `find`: The keys of a database, and those that exist at a
  second.
* `Redis.get` to `Redis.incr`: The commands.
* `Json`, `Arrangement`: How values become text, and in which order a server
  lists members.
* `RedisKeyValueStore.apply`, `RedisSetStore.apply`,
  `RedisCounterStore.apply`: The operations of the classes.

## Theorems

* `find_place`, `find_remove`: What exists after a command.
* `RedisKeyValueStore.apply_onMap`, `RedisSetStore.apply_onMap`,
  `RedisCounterStore.apply_onMap`: An operation answers as on the map.
* `RedisKeyValueStore.apply_of_ne`, `RedisSetStore.apply_of_ne`,
  `RedisCounterStore.apply_of_ne`: It changes only the key it names.
-/

namespace Sandbox.Stores

open Ttl (Entry Map Sets Shows)

/-- What a key of a database holds. -/
inductive Value where
  | string (text : String)
  | set (members : Finset String)

/-- A value and the second at which its key ends, if it has one. -/
structure Cell where
  value : Value
  expiresAt : Option Int

abbrev Database : Type := String → Option Cell

/-- Why a command fails. -/
inductive Failure where
  | wrongType
  | notAnInteger

/-- The key, unless its time to live has elapsed. -/
def find (db : Database) (now : Int) (key : String) : Option Cell :=
  match db key with
  | none => none
  | some cell => if cell.expiresAt.any (fun t => decide (t ≤ now)) then none else some cell

def place (db : Database) (key : String) (cell : Cell) : Database :=
  fun k => if k = key then some cell else db k

def remove (db : Database) (key : String) : Database :=
  fun k => if k = key then none else db k

namespace Redis

variable (db : Database) (now : Int) (key : String)

/-- `GET key` -/
def get : Except Failure (Option String) :=
  match find db now key with
  | none => .ok none
  | some ⟨.string text, _⟩ => .ok (some text)
  | some ⟨.set _, _⟩ => .error .wrongType

/-- `SET key text EX seconds` -/
def setEx (text : String) (seconds : Int) : Database :=
  place db key ⟨.string text, some (now + seconds)⟩

/-- `SET key text EX seconds NX` -/
def setExNx (text : String) (seconds : Int) : Bool × Database :=
  match find db now key with
  | none => (true, setEx db now key text seconds)
  | some _ => (false, db)

/-- `SET key text KEEPTTL XX` -/
def setKeepTtlXx (text : String) : Bool × Database :=
  match find db now key with
  | none => (false, db)
  | some cell => (true, place db key ⟨.string text, cell.expiresAt⟩)

/-- `DEL key` -/
def del : Database := remove db key

/-- `GETDEL key` -/
def getdel : Except Failure (Option String) × Database :=
  match find db now key with
  | none => (.ok none, db)
  | some ⟨.string text, _⟩ => (.ok (some text), remove db key)
  | some ⟨.set _, _⟩ => (.error .wrongType, db)

/-- `SADD key member` -/
def sadd (member : String) : Database :=
  match find db now key with
  | none => place db key ⟨.set {member}, none⟩
  | some ⟨.set members, expiresAt⟩ => place db key ⟨.set (insert member members), expiresAt⟩
  | some ⟨.string _, _⟩ => db

/-- `SREM key member`. An empty set is not kept. -/
def srem (member : String) : Except Failure Unit × Database :=
  match find db now key with
  | none => (.ok (), db)
  | some ⟨.set members, expiresAt⟩ =>
      let rest := members.erase member
      (.ok (), if rest = ∅ then remove db key else place db key ⟨.set rest, expiresAt⟩)
  | some ⟨.string _, _⟩ => (.error .wrongType, db)

/-- `SMEMBERS key`, before the server puts the members in an order. -/
def smembers : Except Failure (Finset String) :=
  match find db now key with
  | none => .ok ∅
  | some ⟨.set members, _⟩ => .ok members
  | some ⟨.string _, _⟩ => .error .wrongType

/-- `EXPIRE key seconds` -/
def expire (seconds : Int) : Database :=
  match find db now key with
  | none => db
  | some cell => place db key ⟨cell.value, some (now + seconds)⟩

/-- `EXPIRE key seconds NX` -/
def expireNx (seconds : Int) : Database :=
  match find db now key with
  | some ⟨value, none⟩ => place db key ⟨value, some (now + seconds)⟩
  | _ => db

/-- `INCR key` -/
def incr : Except Failure Int × Database :=
  match find db now key with
  | none => (.ok 1, place db key ⟨.string (Int.repr 1), none⟩)
  | some ⟨.string text, expiresAt⟩ =>
      match text.toInt? with
      | none => (.error .notAnInteger, db)
      | some n => (.ok (n + 1), place db key ⟨.string (Int.repr (n + 1)), expiresAt⟩)
  | some ⟨.set _, _⟩ => (.error .wrongType, db)

end Redis

/-- `JSON.stringify` and `JSON.parse`, which throws on a text it cannot
    read. -/
structure Json (α : Type) where
  stringify : α → String
  parse : String → Option α

/-- A value that survives being sent as JSON. -/
def Json.RoundTrips {α : Type} (json : Json α) (value : α) : Prop :=
  json.parse (json.stringify value) = some value

/-- An order in which a server lists the members of sets. -/
structure Arrangement where
  order : Finset String → List String
  nodup_order (members : Finset String) : (order members).Nodup
  mem_order {members : Finset String} {member : String} : member ∈ order members ↔ member ∈ members

/-- `ttl` -/
def ttl (seconds : Int) : Int := max 1 seconds

/-- The key of a store in the database. -/
def fullKey (pre key : String) : String := pre ++ ":" ++ key

namespace RedisKeyValueStore

variable {α : Type} (json : Json α) (pre : String) (db : Database) (now : Int)

/-- `parse`, where a broken text is an exception. -/
def parsed : Except Failure (Option String) → Reply α
  | .error _ => .rejected
  | .ok none => .value none
  | .ok (some raw) =>
      match json.parse raw with
      | none => .rejected
      | some value => .value (some value)

def get (key : String) : Reply α :=
  parsed json (Redis.get db now (fullKey pre key))

def set (key : String) (value : α) (ttlSeconds : Int) : Database :=
  Redis.setEx db now (fullKey pre key) (json.stringify value) (ttl ttlSeconds)

def update (key : String) (value : α) : Bool × Database :=
  Redis.setKeepTtlXx db now (fullKey pre key) (json.stringify value)

def delete (key : String) : Database :=
  Redis.del db (fullKey pre key)

def getAndDelete (key : String) : Reply α × Database :=
  let (raw, db) := Redis.getdel db now (fullKey pre key)
  (parsed json raw, db)

def setIfAbsent (key : String) (value : α) (ttlSeconds : Int) : Bool × Database :=
  Redis.setExNx db now (fullKey pre key) (json.stringify value) (ttl ttlSeconds)

def apply : KeyValueOp α → Reply α × Database
  | .get key => (get json pre db now key, db)
  | .set key value ttlSeconds => (.done, set json pre db now key value ttlSeconds)
  | .update key value =>
      let (written, db) := update json pre db now key value
      (.flag written, db)
  | .delete key => (.done, delete pre db key)
  | .getAndDelete key => getAndDelete json pre db now key
  | .setIfAbsent key value ttlSeconds =>
      let (written, db) := setIfAbsent json pre db now key value ttlSeconds
      (.flag written, db)

end RedisKeyValueStore

namespace RedisSetStore

variable {α : Type} (arrangement : Arrangement) (pre : String) (db : Database) (now : Int)

/-- `multi().sadd().expire().exec()`. A failed command does not reject the
    promise of `exec`. -/
def add (key member : String) (ttlSeconds : Int) : Database :=
  let db := Redis.sadd db now (fullKey pre key) member
  Redis.expire db now (fullKey pre key) (ttl ttlSeconds)

def remove (key member : String) : Reply α × Database :=
  match Redis.srem db now (fullKey pre key) member with
  | (.ok (), db) => (.done, db)
  | (.error _, db) => (.rejected, db)

def members (key : String) : Reply α :=
  match Redis.smembers db now (fullKey pre key) with
  | .ok members => .members (arrangement.order members)
  | .error _ => .rejected

def delete (key : String) : Database :=
  Redis.del db (fullKey pre key)

def apply : SetOp → Reply α × Database
  | .add key member ttlSeconds => (.done, add pre db now key member ttlSeconds)
  | .remove key member => remove pre db now key member
  | .members key => (members arrangement pre db now key, db)
  | .delete key => (.done, delete pre db key)

end RedisSetStore

namespace RedisCounterStore

variable {α : Type} (pre : String) (db : Database) (now : Int)

/-- `multi().incr().expire().exec()`. A failed `incr` counts as 0. -/
def increment (key : String) (ttlSeconds : Int) : Int × Database :=
  let (count, db) := Redis.incr db now (fullKey pre key)
  let db := Redis.expireNx db now (fullKey pre key) (ttl ttlSeconds)
  match count with
  | .ok count => (count, db)
  | .error _ => (0, db)

def apply : CounterOp → Reply α × Database
  | .increment key ttlSeconds =>
      let (count, db) := increment pre db now key ttlSeconds
      (.count count, db)

end RedisCounterStore

section Commands

variable {db : Database} {now : Int} {key : String}

theorem find_place (cell : Cell) (now : Int) (k : String) :
    find (place db key cell) now k =
      if k = key then (if cell.expiresAt.any (fun t => decide (t ≤ now)) then none else some cell)
      else find db now k := by
  unfold find place
  by_cases hk : k = key
  · simp only [if_pos hk]
  · simp only [if_neg hk]

theorem find_place_ending (value : Value) (t now : Int) (k : String) :
    find (place db key ⟨value, some t⟩) now k =
      if k = key then (if t ≤ now then none else some ⟨value, some t⟩) else find db now k := by
  simp only [find_place, Option.any_some, decide_eq_true_eq]

theorem find_remove (now : Int) (k : String) :
    find (remove db key) now k = if k = key then none else find db now k := by
  unfold find remove
  by_cases hk : k = key
  · simp only [if_pos hk]
  · simp only [if_neg hk]

theorem place_place (cell cell' : Cell) :
    place (place db key cell) key cell' = place db key cell' := by
  funext k
  unfold place
  by_cases hk : k = key
  · simp only [if_pos hk]
  · simp only [if_neg hk]

/-- A key that exists has its end ahead. -/
theorem lt_of_find {value : Value} {t : Int} (h : find db now key = some ⟨value, some t⟩) :
    now < t := by
  unfold find at h
  cases hcell : db key with
  | none => simp [hcell] at h
  | some cell =>
      simp only [hcell] at h
      split at h
      · cases h
      · rename_i hlive
        cases h
        simpa using hlive

theorem fullKey_inj {pre k k' : String} : fullKey pre k = fullKey pre k' ↔ k = k' := by
  unfold fullKey
  exact String.append_right_inj _

/-- Adding a member and setting the time, whatever the set was before. -/
theorem sadd_expire {members : Finset String} (member : String) (seconds : Int)
    (h : Redis.smembers db now key = .ok members) :
    Redis.expire (Redis.sadd db now key member) now key seconds =
      place db key ⟨.set (insert member members), some (now + seconds)⟩ := by
  unfold Redis.smembers at h
  cases hfind : find db now key with
  | none =>
      simp only [hfind, Except.ok.injEq] at h
      subst h
      simp [Redis.expire, Redis.sadd, hfind, find_place, place_place]
  | some cell =>
      rcases cell with ⟨_ | held, expiresAt⟩
      · simp [hfind] at h
      · simp only [hfind, Except.ok.injEq] at h
        subst h
        -- The key exists at this second, so its end, if any, is ahead.
        have hlive : expiresAt.any (fun t => decide (t ≤ now)) = false := by
          cases expiresAt with
          | none => rfl
          | some t =>
              have := lt_of_find hfind
              simpa using this
        simp [Redis.expire, Redis.sadd, hfind, find_place, place_place, hlive]

theorem place_of_ne {k : String} (hk : k ≠ key) (cell : Cell) : place db key cell k = db k :=
  if_neg hk

theorem expire_of_ne {k : String} (hk : k ≠ key) (seconds : Int) :
    Redis.expire db now key seconds k = db k := by
  unfold Redis.expire
  cases find db now key with
  | none => rfl
  | some cell => exact place_of_ne hk _

theorem expireNx_of_ne {k : String} (hk : k ≠ key) (seconds : Int) :
    Redis.expireNx db now key seconds k = db k := by
  unfold Redis.expireNx
  rcases find db now key with _ | ⟨_, _ | _⟩
  · rfl
  · exact place_of_ne hk _
  · rfl

theorem sadd_of_ne {k : String} (hk : k ≠ key) (member : String) :
    Redis.sadd db now key member k = db k := by
  unfold Redis.sadd
  rcases find db now key with _ | ⟨_ | _, _⟩
  · exact place_of_ne hk _
  · rfl
  · exact place_of_ne hk _

theorem incr_of_ne {k : String} (hk : k ≠ key) : (Redis.incr db now key).2 k = db k := by
  unfold Redis.incr
  rcases find db now key with _ | ⟨text | _, _⟩
  · exact place_of_ne hk _
  · simp only []
    cases text.toInt? with
    | none => rfl
    | some n => exact place_of_ne hk _
  · rfl

end Commands

section Encodings

variable {β : Type} {enc : Entry β → Option Cell} {pre : String} {db : Database} {now : Int}
  {map : Map String β}

/-- A store with a prefix shows a map through an encoding. -/
def ShowsIn (enc : Entry β → Option Cell) (pre : String) (db : Database) (now : Int)
    (map : Map String β) : Prop :=
  Shows enc now (fun later key => find db later (fullKey pre key)) map

theorem ShowsIn.find_later (h : ShowsIn enc pre db now map) {later : Int} (hlater : now ≤ later)
    (key : String) : find db later (fullKey pre key) = (Ttl.live map later key).bind enc :=
  h later hlater key

/-- What the database finds is the encoding of what the map holds. -/
theorem ShowsIn.find (h : ShowsIn enc pre db now map) (key : String) :
    find db now (fullKey pre key) = (Ttl.live map now key).bind enc :=
  h.find_later (Int.le_refl now) key

/-- A cell that encodes an entry shows the map with that entry. -/
theorem ShowsIn.place (h : ShowsIn enc pre db now map) (key : String) {content : β}
    {expiresAt : Int} {value : Value}
    (henc : enc ⟨content, expiresAt⟩ = some ⟨value, some expiresAt⟩) :
    ShowsIn enc pre (place db (fullKey pre key) ⟨value, some expiresAt⟩) now
      (Ttl.put map key ⟨content, expiresAt⟩) := by
  refine Shows.put h key ⟨content, expiresAt⟩ fun later _ k => ?_
  simp only [find_place_ending, fullKey_inj, henc]

/-- A removed key shows the map without its entry. -/
theorem ShowsIn.remove (h : ShowsIn enc pre db now map) (key : String) :
    ShowsIn enc pre (remove db (fullKey pre key)) now (Ttl.delete map key) := by
  refine Shows.delete h key fun later _ k => ?_
  simp only [find_remove, fullKey_inj]

/-- Deleting what is not alive is doing nothing. -/
theorem ShowsIn.delete_dead (h : ShowsIn enc pre db now map) {key : String}
    (hlive : Ttl.live map now key = none) : ShowsIn enc pre db now (Ttl.delete map key) := by
  refine Shows.delete h key fun later hlater k => ?_
  by_cases hk : k = key
  · subst hk
    rw [if_pos rfl, h.find_later hlater k, Ttl.live_eq_none_of_le hlater hlive, Option.bind_none]
  · rw [if_neg hk]

/-- An entry that shows as nothing may be removed. -/
theorem ShowsIn.remove_hidden (h : ShowsIn enc pre db now map) (key : String) {entry : Entry β}
    (henc : enc entry = none) :
    ShowsIn enc pre (Stores.remove db (fullKey pre key)) now (Ttl.put map key entry) := by
  refine Shows.put h key entry fun later _ k => ?_
  simp only [find_remove, fullKey_inj, henc, ite_self]

/-- An entry that shows as nothing may take the place of another. -/
theorem ShowsIn.put_hidden (h : ShowsIn enc pre db now map) (key : String)
    {entry entry' : Entry β} (hlive : Ttl.live map now key = some entry)
    (henc : enc entry = none) (henc' : enc entry' = none) :
    ShowsIn enc pre db now (Ttl.put map key entry') := by
  refine Shows.put h key entry' fun later hlater k => ?_
  by_cases hk : k = key
  · subst hk
    rw [if_pos rfl, henc', ite_self, h.find_later hlater k]
    cases hlate : Ttl.live map later k with
    | none => rfl
    | some found =>
        -- The entry alive later is the one alive now.
        have hfound := (Ttl.live_eq_some.mp hlate).1
        rw [(Ttl.live_eq_some.mp hlive).1, Option.some.injEq] at hfound
        rw [← hfound, Option.bind_some, henc]
  · rw [if_neg hk]

/-- A step that leaves the keys of a store alone. -/
theorem ShowsIn.frame (h : ShowsIn enc pre db now map) {db' : Database}
    (hframe : ∀ key, db' (fullKey pre key) = db (fullKey pre key)) :
    ShowsIn enc pre db' now map := by
  refine Shows.congr h fun later _ key => ?_
  unfold Stores.find
  rw [hframe key]

end Encodings

/-- A positive number of seconds is kept as it is. -/
theorem ttl_of_pos {seconds : Int} (h : 0 < seconds) : ttl seconds = seconds := by
  unfold ttl
  omega

namespace RedisKeyValueStore

variable {α : Type} {json : Json α} {pre : String} {db : Database} {now : Int}
  {map : Map String α}

/-- A value is kept as its text. -/
def encode (json : Json α) (entry : Entry α) : Option Cell :=
  some ⟨.string (json.stringify entry.value), some entry.expiresAt⟩

/-- The store shows the map, all values of which survive JSON. -/
structure ShowsMap (json : Json α) (pre : String) (db : Database) (now : Int)
    (map : Map String α) : Prop where
  shows_ : ShowsIn (encode json) pre db now map
  roundTrips : ∀ key entry, map key = some entry → json.RoundTrips entry.value

theorem ShowsMap.put (h : ShowsMap json pre db now map) (key : String) {value : α}
    (expiresAt : Int) (hvalue : json.RoundTrips value) :
    ShowsMap json pre
      (place db (fullKey pre key) ⟨.string (json.stringify value), some expiresAt⟩) now
      (Ttl.put map key ⟨value, expiresAt⟩) := by
  refine ⟨h.shows_.place key rfl, fun k e he => ?_⟩
  rcases Ttl.put_eq_some he with ⟨_, rfl⟩ | ⟨_, hold⟩
  · exact hvalue
  · exact h.roundTrips k e hold

theorem ShowsMap.delete (h : ShowsMap json pre db now map) (key : String) :
    ShowsMap json pre (remove db (fullKey pre key)) now (Ttl.delete map key) :=
  ⟨h.shows_.remove key, fun k e he => h.roundTrips k e (Ttl.delete_eq_some he).2⟩

theorem parsed_stringify {value : α} (h : json.RoundTrips value) :
    parsed json (.ok (some (json.stringify value))) = .value (some value) := by
  have hparse : json.parse (json.stringify value) = some value := h
  simp only [parsed, hparse]

/-- An operation answers as on the map, and the keys show the new map. -/
theorem apply_onMap (h : ShowsMap json pre db now map) {op : KeyValueOp α}
    (hvalue : ∀ value, op.written = some value → json.RoundTrips value)
    (httl : ∀ seconds, op.ttl = some seconds → 0 < seconds) :
    (apply json pre db now op).1 = (op.onMap map now).1 ∧
      ShowsMap json pre (apply json pre db now op).2 now (op.onMap map now).2 := by
  cases op with
  | get key =>
      refine ⟨?_, h⟩
      have hfind := h.shows_.find key
      simp only [apply, get, KeyValueOp.onMap, Redis.get, Ttl.get, hfind]
      cases hlive : Ttl.live map now key with
      | none => rfl
      | some entry =>
          exact parsed_stringify (h.roundTrips key entry (Ttl.live_eq_some.mp hlive).1)
  | set key value ttlSeconds =>
      refine ⟨rfl, ?_⟩
      simp only [apply, set, Redis.setEx, ttl_of_pos (httl ttlSeconds rfl)]
      exact h.put key _ (hvalue value rfl)
  | update key value =>
      have hfind := h.shows_.find key
      simp only [apply, update, KeyValueOp.onMap, Redis.setKeepTtlXx, Ttl.update, hfind]
      cases hlive : Ttl.live map now key with
      | none => exact ⟨rfl, h⟩
      | some entry => exact ⟨rfl, h.put key _ (hvalue value rfl)⟩
  | delete key => exact ⟨rfl, h.delete key⟩
  | getAndDelete key =>
      have hfind := h.shows_.find key
      simp only [apply, getAndDelete, KeyValueOp.onMap, Redis.getdel, Ttl.getAndDelete, Ttl.get,
        hfind]
      cases hlive : Ttl.live map now key with
      | none =>
          exact ⟨rfl, h.shows_.delete_dead hlive,
            fun k e he => h.roundTrips k e (Ttl.delete_eq_some he).2⟩
      | some entry =>
          exact ⟨parsed_stringify (h.roundTrips key entry (Ttl.live_eq_some.mp hlive).1),
            h.delete key⟩
  | setIfAbsent key value ttlSeconds =>
      have hfind := h.shows_.find key
      simp only [apply, setIfAbsent, KeyValueOp.onMap, Redis.setExNx, Redis.setEx,
        Ttl.setIfAbsent, hfind, ttl_of_pos (httl ttlSeconds rfl)]
      cases hlive : Ttl.live map now key with
      | none => exact ⟨rfl, h.put key _ (hvalue value rfl)⟩
      | some entry => exact ⟨rfl, h⟩

/-- An operation changes no key of another store. -/
theorem apply_of_ne (op : KeyValueOp α) {k : String} (hk : ∀ key, k ≠ fullKey pre key) :
    (apply json pre db now op).2 k = db k := by
  cases op with
  | get key => rfl
  | set key value ttlSeconds => exact if_neg (hk key)
  | update key value =>
      -- Whether a command writes or not, it writes to its own key.
      simp only [apply, update, Redis.setKeepTtlXx]
      cases find db now (fullKey pre key) with
      | none => rfl
      | some cell => exact if_neg (hk key)
  | delete key => exact if_neg (hk key)
  | getAndDelete key =>
      simp only [apply, getAndDelete, Redis.getdel]
      rcases find db now (fullKey pre key) with _ | ⟨_ | _, _⟩
      · rfl
      · exact if_neg (hk key)
      · rfl
  | setIfAbsent key value ttlSeconds =>
      simp only [apply, setIfAbsent, Redis.setExNx]
      cases find db now (fullKey pre key) with
      | none => exact if_neg (hk key)
      | some cell => rfl

end RedisKeyValueStore

namespace RedisSetStore

variable {α : Type} {pre : String} {db : Database} {now : Int}
  {map : Sets String String}

/-- A set is kept unless it is empty. -/
def encode (entry : Entry (List String)) : Option Cell :=
  if entry.value = [] then none
  else some ⟨.set entry.value.toFinset, some entry.expiresAt⟩

/-- The store shows the map, all sets of which list a member once. -/
structure ShowsMap (pre : String) (db : Database) (now : Int) (map : Sets String String) :
    Prop where
  shows_ : ShowsIn encode pre db now map
  nodup : ∀ key entry, map key = some entry → entry.value.Nodup

theorem ShowsMap.smembers (h : ShowsMap pre db now map) (key : String) :
    Redis.smembers db now (fullKey pre key) = .ok (Ttl.members map now key).toFinset := by
  simp only [Redis.smembers, h.shows_.find key, Ttl.members, Ttl.get]
  cases Ttl.live map now key with
  | none => rfl
  | some entry =>
      by_cases hempty : entry.value = []
      · simp [encode, hempty]
      · simp [encode, hempty]

theorem ShowsMap.nodup_members (h : ShowsMap pre db now map) (key : String) :
    (Ttl.members map now key).Nodup := by
  simp only [Ttl.members, Ttl.get]
  cases hlive : Ttl.live map now key with
  | none => exact List.nodup_nil
  | some entry => exact h.nodup key entry (Ttl.live_eq_some.mp hlive).1

theorem ShowsMap.nodup_put (h : ShowsMap pre db now map) (key : String) {xs : List String}
    {expiresAt : Int} (hxs : xs.Nodup) (k : String) (e : Entry (List String))
    (he : Ttl.put map key ⟨xs, expiresAt⟩ k = some e) : e.value.Nodup := by
  rcases Ttl.put_eq_some he with ⟨_, rfl⟩ | ⟨_, hold⟩
  · exact hxs
  · exact h.nodup k e hold

theorem ShowsMap.put (h : ShowsMap pre db now map) (key : String) {xs : List String}
    {members : Finset String} (expiresAt : Int) (hxs : xs.Nodup) (hne : xs ≠ [])
    (hmembers : members = xs.toFinset) :
    ShowsMap pre (place db (fullKey pre key) ⟨.set members, some expiresAt⟩) now
      (Ttl.put map key ⟨xs, expiresAt⟩) := by
  subst hmembers
  exact ⟨h.shows_.place key (if_neg hne), h.nodup_put key hxs⟩

/-- The list of a set after an addition. -/
theorem ShowsMap.insert (h : ShowsMap pre db now map) (key member : String) :
    let old := Ttl.members map now key
    let new := if member ∈ old then old else old ++ [member]
    new.Nodup ∧ new ≠ [] ∧ Insert.insert member old.toFinset = new.toFinset := by
  have hnodup := h.nodup_members key
  by_cases hmem : member ∈ Ttl.members map now key
  · simp only [if_pos hmem]
    exact ⟨hnodup, List.ne_nil_of_mem hmem,
      Finset.insert_eq_of_mem (List.mem_toFinset.mpr hmem)⟩
  · simp only [if_neg hmem]
    refine ⟨?_, by simp, ?_⟩
    · exact List.nodup_append.mpr ⟨hnodup, List.nodup_singleton member,
        fun x hx y hy => by rw [List.mem_singleton.mp hy]; rintro rfl; exact hmem hx⟩
    · ext x
      simp

/-- Removing a member from the list is removing it from the set. -/
theorem toFinset_filter_ne (xs : List String) (member : String) :
    (xs.filter (fun x => decide (x ≠ member))).toFinset = xs.toFinset.erase member := by
  ext x
  simp [and_comm]

/-- An operation answers as on the map, up to the order of members, and the
    keys show the new map. -/
theorem apply_onMap (arrangement : Arrangement) (h : ShowsMap pre db now map) {op : SetOp}
    (httl : ∀ seconds, op.ttl = some seconds → 0 < seconds) :
    Reply.Agree ((op.onMap map now).1 : Reply α) (apply arrangement pre db now op).1 ∧
      ShowsMap pre (apply arrangement pre db now op : Reply α × Database).2 now
        (op.onMap map now : Reply α × Sets String String).2 := by
  cases op with
  | add key member ttlSeconds =>
      refine ⟨.refl _, ?_⟩
      simp only [apply, add, SetOp.onMap, Ttl.add, Ttl.set, ttl_of_pos (httl ttlSeconds rfl),
        sadd_expire member ttlSeconds (h.smembers key)]
      have hinsert := h.insert key member
      exact h.put key (now + ttlSeconds) hinsert.1 hinsert.2.1 hinsert.2.2
  | remove key member =>
      simp only [apply, remove, SetOp.onMap, Ttl.remove, Redis.srem, h.shows_.find key]
      cases hlive : Ttl.live map now key with
      | none => exact ⟨.refl _, h⟩
      | some entry =>
          have hnodup := (h.nodup key entry (Ttl.live_eq_some.mp hlive).1).filter
            (fun x => decide (x ≠ member))
          by_cases hempty : entry.value = []
          · -- The set had no member, so the database has no key.
            simp only [Option.bind_some, encode, if_pos hempty]
            exact ⟨.refl _, h.shows_.put_hidden key hlive (if_pos hempty)
              (if_pos (by rw [hempty]; rfl)), h.nodup_put key hnodup⟩
          · simp only [Option.bind_some, encode, if_neg hempty, ← toFinset_filter_ne]
            by_cases hrest : entry.value.filter (fun x => decide (x ≠ member)) = []
            · -- The member was the last one.
              rw [if_pos (by rw [hrest]; rfl)]
              exact ⟨.refl _, h.shows_.remove_hidden key (if_pos hrest), h.nodup_put key hnodup⟩
            · rw [if_neg (by simpa [List.toFinset_eq_empty_iff] using hrest)]
              exact ⟨.refl _, h.put key entry.expiresAt hnodup hrest rfl⟩
  | members key =>
      refine ⟨?_, h⟩
      simp only [apply, RedisSetStore.members, SetOp.onMap, h.smembers key]
      refine .members ((List.perm_ext_iff_of_nodup (h.nodup_members key)
        (arrangement.nodup_order _)).mpr fun member => ?_)
      rw [arrangement.mem_order, List.mem_toFinset]
  | delete key =>
      exact ⟨.refl _, h.shows_.remove key, fun k e he => h.nodup k e (Ttl.delete_eq_some he).2⟩

/-- An operation changes no key of another store. -/
theorem apply_of_ne (arrangement : Arrangement) (op : SetOp) {k : String}
    (hk : ∀ key, k ≠ fullKey pre key) :
    (apply arrangement pre db now op : Reply α × Database).2 k = db k := by
  cases op with
  | add key member ttlSeconds =>
      exact (expire_of_ne (hk key) _).trans (sadd_of_ne (hk key) member)
  | remove key member =>
      simp only [apply, remove, Redis.srem]
      rcases find db now (fullKey pre key) with _ | ⟨_ | _, _⟩
      · rfl
      · rfl
      · simp only []
        split
        · exact if_neg (hk key)
        · exact if_neg (hk key)
  | members key => rfl
  | delete key => exact if_neg (hk key)

end RedisSetStore

namespace RedisCounterStore

variable {α : Type} {pre : String} {db : Database} {now : Int} {map : Map String Nat}

/-- A count is kept as its digits. -/
def encode (entry : Entry Nat) : Option Cell :=
  some ⟨.string (Int.repr entry.value), some entry.expiresAt⟩

/-- An operation answers as on the map, and the keys show the new map. -/
theorem apply_onMap (h : ShowsIn encode pre db now map) {op : CounterOp}
    (httl : ∀ seconds, op.ttl = some seconds → 0 < seconds) :
    ((apply pre db now op).1 : Reply α) = (op.onMap map now).1 ∧
      ShowsIn encode pre (apply pre db now op : Reply α × Database).2 now
        (op.onMap map now : Reply α × Map String Nat).2 := by
  cases op with
  | increment key ttlSeconds =>
      have hfind := h.find key
      cases hlive : Ttl.live map now key with
      | none =>
          -- The key does not exist: `INCR` makes it and `EXPIRE NX` gives it its time.
          rw [hlive, Option.bind_none] at hfind
          simp only [apply, increment, Redis.incr, Redis.expireNx, CounterOp.onMap,
            Ttl.increment, hlive, hfind, find_place, if_true, Option.any_none,
            place_place, ttl_of_pos (httl ttlSeconds rfl)]
          exact ⟨rfl, h.place key rfl⟩
      | some entry =>
          -- The key has its time, so `EXPIRE NX` does nothing.
          have hend := (Ttl.live_eq_some.mp hlive).2
          rw [hlive, Option.bind_some] at hfind
          simp only [apply, increment, Redis.incr, Redis.expireNx, CounterOp.onMap,
            Ttl.increment, hlive, hfind, encode, Int.toInt?_repr, find_place_ending, if_true,
            if_neg (Int.not_le.mpr hend)]
          exact ⟨rfl, h.place key rfl⟩

/-- The operation changes no key of another store. -/
theorem apply_of_ne (op : CounterOp) {k : String} (hk : ∀ key, k ≠ fullKey pre key) :
    (apply pre db now op : Reply α × Database).2 k = db k := by
  cases op with
  | increment key ttlSeconds =>
      have hincr : (Redis.incr db now (fullKey pre key)).2 k = db k := incr_of_ne (hk key)
      simp only [apply, increment]
      cases (Redis.incr db now (fullKey pre key)).1 with
      | error failure => exact (expireNx_of_ne (hk key) _).trans hincr
      | ok count => exact (expireNx_of_ne (hk key) _).trans hincr

end RedisCounterStore

end Sandbox.Stores
