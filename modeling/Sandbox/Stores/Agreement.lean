import Sandbox.Stores.Memory
import Sandbox.Stores.Redis

/-!
# Memory and Redis Agree

A process makes its stores with a factory: each gets a prefix, and either all
of them live in memory or all of them in one Redis database. For the process
this makes no difference. Every list of operations on any of the stores, at
times that never decrease, is answered as by maps in which an entry is absent
from the second its time to live elapses.

The stores in Redis share one database, so this needs that their prefixes
keep them apart: no key of one store is a key of another. Neither table of
prefixes in the code has two names of which one, with its colon, starts the
other.

## Main definitions

* `StoreName`, `StoreOp`: The stores of a process and their operations.
* `Separate`: The prefixes keep the stores apart.
* `MapStores`, `MemoryStores`, `RedisServer`: The stores as maps, in memory
  and in a database.
* `createAuthStores`, `startWebCore`: The prefixes of the processes.

## Theorems

* `separate_createAuthStores`, `separate_startWebCore`: They are separate.
* `stores_agree`: All three answer the same.
-/

namespace Sandbox.Stores

open Ttl (Entry Map Sets replies)

/-- A store of a process. -/
inductive StoreName (K S C : Type) where
  | kv (name : K)
  | set (name : S)
  | counter (name : C)
  deriving DecidableEq

/-- An operation on one of the stores. -/
inductive StoreOp (K S C α : Type) where
  | kv (name : K) (op : KeyValueOp α)
  | set (name : S) (op : SetOp)
  | counter (name : C) (op : CounterOp)

variable {K S C α : Type}

def StoreOp.ttl : StoreOp K S C α → Option Int
  | .kv _ op => op.ttl
  | .set _ op => op.ttl
  | .counter _ op => op.ttl

def StoreOp.written : StoreOp K S C α → Option α
  | .kv _ op => op.written
  | .set _ _ => none
  | .counter _ _ => none

/-- No key of one store is a key of another. -/
def Separate (pre : StoreName K S C → String) : Prop :=
  ∀ a b key key', fullKey (pre a) key = fullKey (pre b) key' → a = b

section Machines

variable [DecidableEq K] [DecidableEq S] [DecidableEq C]

/-- The stores of a process as maps. -/
structure MapStores (K S C α : Type) where
  kv : K → Map String α
  set : S → Sets String String
  counter : C → Map String Nat

def MapStores.empty : MapStores K S C α :=
  ⟨fun _ => Ttl.empty, fun _ => Ttl.empty, fun _ => Ttl.empty⟩

def MapStores.apply (stores : MapStores K S C α) (now : Int) :
    StoreOp K S C α → Reply α × MapStores K S C α
  | .kv name op =>
      let (reply, map) := op.onMap (stores.kv name) now
      (reply, { stores with kv := Function.update stores.kv name map })
  | .set name op =>
      let (reply, map) := op.onMap (stores.set name) now
      (reply, { stores with set := Function.update stores.set name map })
  | .counter name op =>
      let (reply, map) := op.onMap (stores.counter name) now
      (reply, { stores with counter := Function.update stores.counter name map })

/-- `createMemoryStoreFactory` -/
structure MemoryStores (K S C α : Type) where
  kv : K → MemoryKeyValueStore α
  set : S → MemorySetStore
  counter : C → MemoryCounterStore

def MemoryStores.empty : MemoryStores K S C α :=
  ⟨fun _ => .empty, fun _ => .empty, fun _ => .empty⟩

def MemoryStores.apply (stores : MemoryStores K S C α) (now : Int) :
    StoreOp K S C α → Reply α × MemoryStores K S C α
  | .kv name op =>
      let (reply, store) := (stores.kv name).apply now op
      (reply, { stores with kv := Function.update stores.kv name store })
  | .set name op =>
      let (reply, store) := (stores.set name).apply now op
      (reply, { stores with set := Function.update stores.set name store })
  | .counter name op =>
      let (reply, store) := (stores.counter name).apply now op
      (reply, { stores with counter := Function.update stores.counter name store })

/-- A database and the number of operations it has served. -/
structure RedisServer where
  db : Database
  served : Nat

def RedisServer.empty : RedisServer := ⟨fun _ => none, 0⟩

/-- `createStoreFactory` with a Redis client. The server orders members as it
    likes at every operation. -/
def RedisServer.apply (json : Json α) (arrangement : Nat → Arrangement)
    (pre : StoreName K S C → String) (server : RedisServer) (now : Int) :
    StoreOp K S C α → Reply α × RedisServer
  | .kv name op =>
      let (reply, db) := RedisKeyValueStore.apply json (pre (.kv name)) server.db now op
      (reply, ⟨db, server.served + 1⟩)
  | .set name op =>
      let (reply, db) := RedisSetStore.apply (arrangement server.served) (pre (.set name))
        server.db now op
      (reply, ⟨db, server.served + 1⟩)
  | .counter name op =>
      let (reply, db) := RedisCounterStore.apply (pre (.counter name)) server.db now op
      (reply, ⟨db, server.served + 1⟩)

end Machines

section Memory

/-- All stores in memory show the maps. -/
structure MemoryShows (now : Int) (memory : MemoryStores K S C α) (maps : MapStores K S C α) :
    Prop where
  kv (name : K) : ShowsEntries now (memory.kv name).entries (maps.kv name)
  set (name : S) : ShowsEntries now (memory.set name).sets (maps.set name)
  counter (name : C) : ShowsEntries now (memory.counter name).counters (maps.counter name)

theorem memoryShows_empty (now : Int) :
    MemoryShows now (MemoryStores.empty : MemoryStores K S C α) MapStores.empty :=
  ⟨fun _ _ _ _ => rfl, fun _ _ _ _ => rfl, fun _ _ _ _ => rfl⟩

theorem MemoryShows.mono {now now' : Int} (hle : now ≤ now') {memory : MemoryStores K S C α}
    {maps : MapStores K S C α} (h : MemoryShows now memory maps) :
    MemoryShows now' memory maps :=
  ⟨fun name => (h.kv name).mono hle, fun name => (h.set name).mono hle,
    fun name => (h.counter name).mono hle⟩

variable [DecidableEq K] [DecidableEq S] [DecidableEq C]

/-- A relation between two tables of stores holds after one pair of stores
    that is related takes its place in both. -/
theorem forall_update {ι β γ : Type} [DecidableEq ι] {R : β → γ → Prop} {f : ι → β} {g : ι → γ}
    (h : ∀ i, R (f i) (g i)) {i : ι} {b : β} {c : γ} (hbc : R b c) (j : ι) :
    R (Function.update f i b j) (Function.update g i c j) := by
  by_cases hj : j = i
  · subst hj
    rw [Function.update_self, Function.update_self]
    exact hbc
  · rw [Function.update_of_ne hj, Function.update_of_ne hj]
    exact h j

/-- The stores in memory answer as the maps. -/
theorem MemoryShows.apply {now : Int} {memory : MemoryStores K S C α}
    {maps : MapStores K S C α} (h : MemoryShows now memory maps) (op : StoreOp K S C α) :
    (memory.apply now op).1 = (maps.apply now op).1 ∧
      MemoryShows now (memory.apply now op).2 (maps.apply now op).2 := by
  cases op with
  | kv name op =>
      rcases MemoryKeyValueStore.apply_onMap (h.kv name) op with ⟨hreply, hshows⟩
      exact ⟨hreply, forall_update (R := fun (store : MemoryKeyValueStore α) map =>
        ShowsEntries now store.entries map) h.kv hshows, h.set, h.counter⟩
  | set name op =>
      rcases MemorySetStore.apply_onMap (h.set name) op with ⟨hreply, hshows⟩
      exact ⟨hreply, h.kv, forall_update (R := fun (store : MemorySetStore) map =>
        ShowsEntries now store.sets map) h.set hshows, h.counter⟩
  | counter name op =>
      rcases MemoryCounterStore.apply_onMap (h.counter name) op with ⟨hreply, hshows⟩
      exact ⟨hreply, h.kv, h.set, forall_update (R := fun (store : MemoryCounterStore) map =>
        ShowsEntries now store.counters map) h.counter hshows⟩

end Memory

section InRedis

variable {json : Json α} {pre : StoreName K S C → String}

/-- All stores in the database show the maps. -/
structure RedisShows (json : Json α) (pre : StoreName K S C → String) (now : Int)
    (maps : MapStores K S C α) (server : RedisServer) : Prop where
  kv (name : K) :
    RedisKeyValueStore.ShowsMap json (pre (.kv name)) server.db now (maps.kv name)
  set (name : S) : RedisSetStore.ShowsMap (pre (.set name)) server.db now (maps.set name)
  counter (name : C) :
    ShowsIn RedisCounterStore.encode (pre (.counter name)) server.db now (maps.counter name)

theorem redisShows_empty (now : Int) :
    RedisShows json pre now MapStores.empty RedisServer.empty :=
  ⟨fun _ => ⟨fun _ _ _ => rfl, fun _ _ h => nomatch h⟩,
    fun _ => ⟨fun _ _ _ => rfl, fun _ _ h => nomatch h⟩, fun _ _ _ _ => rfl⟩

theorem RedisShows.mono {now now' : Int} (hle : now ≤ now') {maps : MapStores K S C α}
    {server : RedisServer} (h : RedisShows json pre now maps server) :
    RedisShows json pre now' maps server :=
  ⟨fun name => ⟨(h.kv name).shows_.mono hle, (h.kv name).roundTrips⟩,
    fun name => ⟨(h.set name).shows_.mono hle, (h.set name).nodup⟩,
    fun name => (h.counter name).mono hle⟩

/-- After an operation on one store the others are as they were. -/
theorem frame_of_separate (hsep : Separate pre) {db db' : Database} {a b : StoreName K S C}
    (hne : b ≠ a) (hframe : ∀ {k}, (∀ key, k ≠ fullKey (pre a) key) → db' k = db k)
    (key : String) : db' (fullKey (pre b) key) = db (fullKey (pre b) key) :=
  hframe fun key' heq => hne (hsep b a key key' heq)

variable [DecidableEq K] [DecidableEq S] [DecidableEq C]

/-- A property of the stores of a table holds after one of them is replaced,
    if it holds of the new one and survives at the others. -/
theorem forall_update_of_ne {ι γ : Type} [DecidableEq ι] {P Q : ι → γ → Prop} {g : ι → γ}
    (h : ∀ i, P i (g i)) {i : ι} {c : γ} (hc : Q i c) (hother : ∀ j, j ≠ i → P j (g j) → Q j (g j))
    (j : ι) : Q j (Function.update g i c j) := by
  by_cases hj : j = i
  · subst hj
    rw [Function.update_self]
    exact hc
  · rw [Function.update_of_ne hj]
    exact hother j hj (h j)

/-- The stores in the database answer as the maps. -/
theorem RedisShows.apply (hsep : Separate pre) (arrangement : Nat → Arrangement) {now : Int}
    {maps : MapStores K S C α} {server : RedisServer} (h : RedisShows json pre now maps server)
    (op : StoreOp K S C α) (httl : ∀ seconds, op.ttl = some seconds → 0 < seconds)
    (hvalue : ∀ value, op.written = some value → json.RoundTrips value) :
    Reply.Agree (maps.apply now op).1 (server.apply json arrangement pre now op).1 ∧
      RedisShows json pre now (maps.apply now op).2
        (server.apply json arrangement pre now op).2 := by
  cases op with
  | kv name op =>
      rcases RedisKeyValueStore.apply_onMap (h.kv name) hvalue httl with ⟨hreply, hshows⟩
      -- An operation on one store leaves the keys of all others alone.
      have hframe : ∀ b, b ≠ .kv name → ∀ key,
          (RedisKeyValueStore.apply json (pre (.kv name)) server.db now op).2
            (fullKey (pre b) key) = server.db (fullKey (pre b) key) :=
        fun b hb => frame_of_separate hsep hb (RedisKeyValueStore.apply_of_ne op)
      refine ⟨?_, forall_update_of_ne h.kv hshows fun other hother hold =>
        ⟨hold.shows_.frame (hframe _ (by simpa using hother)), hold.roundTrips⟩,
        fun other => ⟨(h.set other).shows_.frame (hframe _ (by simp)), (h.set other).nodup⟩,
        fun other => (h.counter other).frame (hframe _ (by simp))⟩
      exact hreply ▸ .refl _
  | set name op =>
      rcases RedisSetStore.apply_onMap (α := α) (arrangement server.served)
        (h.set name) httl with ⟨hreply, hshows⟩
      have hframe : ∀ b, b ≠ .set name → ∀ key,
          (RedisSetStore.apply (arrangement server.served) (pre (.set name)) server.db now op :
            Reply α × Database).2 (fullKey (pre b) key) = server.db (fullKey (pre b) key) :=
        fun b hb => frame_of_separate hsep hb (RedisSetStore.apply_of_ne _ op)
      exact ⟨hreply,
        fun other => ⟨(h.kv other).shows_.frame (hframe _ (by simp)), (h.kv other).roundTrips⟩,
        forall_update_of_ne h.set hshows fun other hother hold =>
          ⟨hold.shows_.frame (hframe _ (by simpa using hother)), hold.nodup⟩,
        fun other => (h.counter other).frame (hframe _ (by simp))⟩
  | counter name op =>
      rcases RedisCounterStore.apply_onMap (α := α) (h.counter name) httl with ⟨hreply, hshows⟩
      have hframe : ∀ b, b ≠ .counter name → ∀ key,
          (RedisCounterStore.apply (pre (.counter name)) server.db now op :
            Reply α × Database).2 (fullKey (pre b) key) = server.db (fullKey (pre b) key) :=
        fun b hb => frame_of_separate hsep hb (RedisCounterStore.apply_of_ne op)
      refine ⟨?_,
        fun other => ⟨(h.kv other).shows_.frame (hframe _ (by simp)), (h.kv other).roundTrips⟩,
        fun other => ⟨(h.set other).shows_.frame (hframe _ (by simp)), (h.set other).nodup⟩,
        forall_update_of_ne h.counter hshows fun other hother hold =>
          hold.frame (hframe _ (by simpa using hother))⟩
      exact hreply ▸ .refl _

end InRedis

section Prefixes

/-- Prefixes keep their stores apart if none, with its colon, starts
    another. -/
theorem separate_of_not_prefix {pre : StoreName K S C → String}
    (h : ∀ a b, (pre a ++ ":").toList <+: (pre b ++ ":").toList → a = b) : Separate pre := by
  intro a b key key' heq
  have hlist := congrArg String.toList heq
  simp only [fullKey, String.toList_append] at hlist
  have ha : (pre a ++ ":").toList <+: (pre a ++ ":").toList ++ key.toList :=
    List.prefix_append _ _
  have hb : (pre b ++ ":").toList <+: (pre a ++ ":").toList ++ key.toList := by
    rw [String.toList_append, String.toList_append] at *
    rw [hlist]
    exact List.prefix_append _ _
  -- Two beginnings of one text: one starts the other.
  rcases List.prefix_or_prefix_of_prefix ha hb with hab | hba
  · exact h a b hab
  · exact (h b a hba).symm

/-- The stores of values of the authorization server. -/
inductive AuthKv where
  | ssoSessions
  | sidIndex
  | authorizationRequests
  | authorizationCodes
  | refreshTokens
  | csrfTokens
  | mfaPending
  deriving DecidableEq

/-- Its stores of sets. -/
inductive AuthSet where
  | refreshTokenFamilies
  | sidRefreshFamilies
  deriving DecidableEq

/-- The prefixes of `createAuthStores`. Its counter is `rateLimits`. -/
def createAuthStores : StoreName AuthKv AuthSet Unit → String
  | .kv .ssoSessions => "sso:sess"
  | .kv .sidIndex => "sso:sid"
  | .kv .authorizationRequests => "sso:authreq"
  | .kv .authorizationCodes => "sso:code"
  | .kv .refreshTokens => "sso:rt"
  | .set .refreshTokenFamilies => "sso:rtfamily"
  | .kv .csrfTokens => "sso:csrf"
  | .kv .mfaPending => "sso:mfa"
  | .set .sidRefreshFamilies => "sso:sidrt"
  | .counter () => "sso:ratelimit"

theorem separate_createAuthStores : Separate createAuthStores := by
  refine separate_of_not_prefix ?_
  rintro (a | a | a) (b | b | b) <;> cases a <;> cases b <;> decide +kernel

/-- The stores of values of a service's web process. -/
inductive WebKv where
  | sessions
  | preAuth
  | refreshLocks
  deriving DecidableEq

/-- The prefixes of `startWebCore`, which all start with the service's client
    id. Its set is `sessionsBySid` and its counter `rateLimits`. -/
def startWebCore (clientId : String) : StoreName WebKv Unit Unit → String
  | .kv .sessions => clientId ++ ":sess"
  | .set () => clientId ++ ":sid"
  | .kv .preAuth => clientId ++ ":pre"
  | .kv .refreshLocks => clientId ++ ":lock"
  | .counter () => clientId ++ ":ratelimit"

theorem separate_startWebCore (clientId : String) : Separate (startWebCore clientId) := by
  refine separate_of_not_prefix ?_
  rintro (a | a | a) (b | b | b) <;> cases a <;> cases b <;>
    simp only [startWebCore, String.append_assoc, String.toList_append,
      List.prefix_append_right_inj] <;> decide +kernel

end Prefixes

section Runs

variable [DecidableEq K] [DecidableEq S] [DecidableEq C]

/-- Whatever a process does with its stores, at times that do not decrease,
    with positive times to live and values that survive JSON: stores in
    memory answer as maps whose entries are absent from the second they end,
    and so do stores in Redis, up to the order of members. -/
theorem stores_agree {pre : StoreName K S C → String} (hsep : Separate pre) (json : Json α)
    (arrangement : Nat → Arrangement) {ops : List (Int × StoreOp K S C α)}
    (htimes : ops.Pairwise fun a b => a.1 ≤ b.1)
    (httl : ∀ o ∈ ops, ∀ seconds, o.2.ttl = some seconds → 0 < seconds)
    (hvalue : ∀ o ∈ ops, ∀ value, o.2.written = some value → json.RoundTrips value) :
    replies MemoryStores.apply MemoryStores.empty ops =
        replies MapStores.apply MapStores.empty ops ∧
      List.Forall₂ Reply.Agree (replies MapStores.apply MapStores.empty ops)
        (replies (RedisServer.apply json arrangement pre) RedisServer.empty ops) := by
  -- A second before all operations.
  obtain ⟨start, hstart⟩ : ∃ start : Int, ∀ o ∈ ops, start ≤ o.1 := by
    cases ops with
    | nil => exact ⟨0, fun o ho => nomatch ho⟩
    | cons first rest =>
        refine ⟨first.1, fun o ho => ?_⟩
        rcases List.mem_cons.mp ho with rfl | hrest
        · exact Int.le_refl _
        · exact (List.pairwise_cons.mp htimes).1 o hrest
  constructor
  · have hagree := Ttl.replies_agree (fun _ : StoreOp K S C α => True) Eq
      (fun now (memory : MemoryStores K S C α) maps => MemoryShows now memory maps)
      (fun hle h => h.mono hle) (fun {_ op _ _} _ h => h.apply op) htimes
      (fun _ _ => trivial) hstart (memoryShows_empty start)
    rwa [List.forall₂_eq_eq_eq] at hagree
  · exact Ttl.replies_agree
      (fun op : StoreOp K S C α => (∀ seconds, op.ttl = some seconds → 0 < seconds) ∧
        ∀ value, op.written = some value → json.RoundTrips value)
      Reply.Agree (fun now maps server => RedisShows json pre now maps server)
      (fun hle h => h.mono hle)
      (fun {_ op _ _} hop h => h.apply hsep arrangement op hop.1 hop.2) htimes
      (fun o ho => ⟨httl o ho, hvalue o ho⟩) hstart (redisShows_empty start)

/-- Numbers as JSON text. -/
def decimalJson : Json Nat := ⟨Nat.repr, String.toNat?⟩

/-- A server that lists members in alphabetical order. -/
def alphabetical : Arrangement where
  order members := members.sort (· ≤ ·)
  nodup_order members := members.sort_nodup (· ≤ ·)
  mem_order := Finset.mem_sort (· ≤ ·)

/-- A value and a set at the last second they are alive and at the next, a set
    that loses its members, and a count across two windows. -/
def expiringOps : List (Int × StoreOp AuthKv AuthSet Unit Nat) :=
  [(0, .kv .ssoSessions (.set "id" 7 60)),
    (0, .set .sidRefreshFamilies (.add "sid" "b" 60)),
    (5, .set .sidRefreshFamilies (.add "sid" "a" 60)),
    (5, .counter () (.increment "ip" 10)),
    (14, .counter () (.increment "ip" 10)),
    (15, .counter () (.increment "ip" 10)),
    (20, .kv .ssoSessions (.update "id" 8)),
    (59, .kv .ssoSessions (.get "id")),
    (60, .kv .ssoSessions (.get "id")),
    (64, .set .sidRefreshFamilies (.members "sid")),
    (65, .set .sidRefreshFamilies (.members "sid")),
    (70, .set .sidRefreshFamilies (.add "sid" "c" 60)),
    (71, .set .sidRefreshFamilies (.remove "sid" "c")),
    (72, .set .sidRefreshFamilies (.members "sid"))]

theorem expiringOps_agree :
    replies MapStores.apply MapStores.empty expiringOps =
        [.done, .done, .done, .count 1, .count 2, .count 1, .flag true, .value (some 8),
          .value none, .members ["b", "a"], .members [], .done, .done, .members []] ∧
      replies MemoryStores.apply MemoryStores.empty expiringOps =
        replies MapStores.apply MapStores.empty expiringOps ∧
      List.Forall₂ Reply.Agree (replies MapStores.apply MapStores.empty expiringOps)
        (replies (RedisServer.apply decimalJson (fun _ => alphabetical) createAuthStores)
          RedisServer.empty expiringOps) :=
  ⟨by decide +kernel,
    stores_agree separate_createAuthStores decimalJson (fun _ => alphabetical) (by decide)
      (by simp [expiringOps, StoreOp.ttl, KeyValueOp.ttl, SetOp.ttl, CounterOp.ttl])
      (fun _ _ value _ => Nat.toNat?_repr value)⟩

end Runs

end Sandbox.Stores
