import Mathlib.Data.List.Basic
import Sandbox.Interleave.Pool

/-!
# The Cached Keys of Another Server

A source of keys fetches them from another server and keeps them. Callers
that come while a fetch is in flight get its result: they hold the same
promise. A caller that has seen an unknown key may force a fetch, which is
done once in a while only.

Whoever asks runs in one piece up to the first wait, so asking is one action.
A fetch goes on after that: its outcome is kept or what is cached falls back
in, then the promise is cleared and resolved, and those that hold it read
their result.

The key set is left abstract. The clock advances from outside.

## Main definitions

* `RemoteJwksSource`: The state of the source.
* `FetchOutcome`: How a fetch can end.
* `enter`, `refresh`, `get`: The source's methods.
* `jwksSystem`: Any number of callers.
-/

namespace Sandbox.Jwks

open Interleave

/-- The least time between forced fetches, in seconds. -/
def refreshMinInterval : Int := 60

/-- How long a key set is used without asking for a new one. -/
def cacheTtl : Int := 10 * 60

section State

variable (κ : Type)

/-- `RemoteJwksSource`. A fetch in flight is known by its promise. -/
structure RemoteJwksSource where
  cached : Option κ
  attemptedAt : Int
  forcedAt : Int
  inflight : Option Nat
  deriving DecidableEq

/-- The source, the clock, and what the promises were resolved with. -/
structure State where
  source : RemoteJwksSource κ
  clock : Int
  promises : List (Option (Except String κ))

/-- How a fetch can end. -/
inductive FetchOutcome
  | urlUnavailable (reason : String)
  | failed (reason : String)
  | status (code : Nat)
  | malformed
  | parsed (keys : κ)
  deriving DecidableEq

/-- What a run can be asked about: a caller that is answered from the cache,
    joins the fetch in flight or starts one, and whether there was a key set;
    the end of a fetch; the result of a promise, and that a caller was
    returned it. -/
inductive Event
  | answered (forced : Bool) (now : Int)
  | joined (promise : Nat) (forced : Bool) (now : Int)
  | started (promise : Nat) (forced cached : Bool) (now : Int)
  | fetched (outcome : FetchOutcome κ)
  | resolved (promise : Nat) (result : Except String κ)
  | returned (promise : Nat) (result : Except String κ)
  deriving DecidableEq

abbrev JwksProg : Type → Type 1 := Prog (State κ) (FetchOutcome κ) (Event κ)

end State

variable {κ : Type}

/-- A source that was just made, at a time of the clock. -/
def State.start (clock : Int) : State κ := ⟨⟨none, 0, 0, none⟩, clock, []⟩

/-- What a caller gets at once: a key set, the promise of a fetch in flight, or
    the promise of a fetch that starts now. -/
inductive Entry (κ : Type)
  | cached (keys : κ) (now : Int)
  | joined (promise : Nat) (now : Int)
  | started (promise : Nat) (cached : Bool) (now : Int)

def Entry.event (forced : Bool) : Entry κ → Option (Event κ)
  | .cached _ now => some (.answered forced now)
  | .joined promise now => some (.joined promise forced now)
  | .started promise had now => some (.started promise forced had now)

/-- Join the fetch in flight, or start one. -/
def share (s : State κ) : Entry κ × State κ :=
  match s.source.inflight with
  | some promise => (.joined promise s.clock, s)
  | none =>
      (.started s.promises.length s.source.cached.isSome s.clock,
        { s with
          source := { s.source with attemptedAt := s.clock, inflight := some s.promises.length }
          promises := s.promises ++ [none] })

/-- `get`, up to its promise. -/
def enter (forceRefresh : Bool) (s : State κ) : Entry κ × State κ :=
  let now := s.clock
  match forceRefresh, s.source.cached with
  | true, some keys =>
      -- Unknown keys come right after a rotation, and from whoever makes them up.
      if now - s.source.forcedAt < refreshMinInterval then (.cached keys now, s)
      else share { s with source := { s.source with forcedAt := now } }
  | true, none => share { s with source := { s.source with forcedAt := now } }
  | false, some keys =>
      if now - s.source.attemptedAt < cacheTtl then (.cached keys now, s)
      -- The code tests the shorter interval after the longer one.
      else if now - s.source.attemptedAt < refreshMinInterval then (.cached keys now, s)
      else share s
  | false, none => share s

/-- What is cached, or an error if nothing is. -/
def fallback (reason : String) (s : State κ) : Except String κ :=
  match s.source.cached with
  | some keys => .ok keys
  | none => .error reason

/-- The result of a fetch. A key set is kept. -/
def settle (outcome : FetchOutcome κ) (s : State κ) : Except String κ × State κ :=
  match outcome with
  | .parsed keys => (.ok keys, { s with source := { s.source with cached := some keys } })
  | .urlUnavailable reason => (fallback reason s, s)
  | .failed reason => (fallback reason s, s)
  | .status code => (fallback ("status " ++ toString code) s, s)
  | .malformed => (fallback "malformed jwks" s, s)

/-- The end of a fetch, which comes from outside. -/
def fetch : JwksProg κ (Except String κ) := do
  let r ← .act (fun r => some (.fetched r.1)) (fun outcome s =>
    some ((outcome, (settle outcome s).1), (settle outcome s).2)) .done
  pure r.2

/-- `refresh`, and what is done when it is over. -/
def refresh (promise : Nat) : JwksProg κ Unit := do
  let result ← fetch
  .logged (fun _ => .resolved promise result) fun s => ((),
    { s with
      source := { s.source with inflight := none }
      promises := s.promises.set promise (some result) })

/-- Wait for a promise. -/
def settled (promise : Nat) : JwksProg κ (Except String κ) :=
  .act (fun result => some (.returned promise result))
    (fun _ s => s.promises[promise]?.join.map fun result => (result, s)) .done

/-- `get` -/
def get (forceRefresh : Bool) : JwksProg κ (Except String κ) := do
  let entry ← .act (Entry.event forceRefresh) (fun _ s => some (enter forceRefresh s)) .done
  match entry with
  | .cached keys _ => pure (.ok keys)
  | .joined promise _ => settled promise
  | .started promise _ _ => do
      refresh promise
      settled promise

/-- A call of `get`. -/
structure Call where
  forceRefresh : Bool
  deriving DecidableEq

/-- Time passes. -/
inductive Change
  | tick (seconds : Nat)
  deriving DecidableEq

def Change.apply : Change → State κ → Option (State κ)
  | .tick seconds, s => some { s with clock := s.clock + seconds }

/-- Any number of callers of one source. -/
def jwksSystem (κ : Type) :
    System (State κ) (FetchOutcome κ) (Event κ) Call Change fun _ => Except String κ where
  body call := get call.forceRefresh
  env := Change.apply

abbrev History (κ : Type) : Type := List (Call × Event κ)

end Sandbox.Jwks
