import Sandbox.Ttl.Map
import Mathlib.Data.List.Perm.Basic

/-!
# The Interfaces of the Stores

The operations of the three kinds of stores and their answers. An
implementation performs an operation at a second and answers it. The
reference is a map of `Ttl.Map`, in which an entry is absent from the second
its time to live elapses.

## Main definitions

* `KeyValueOp`, `SetOp`, `CounterOp`: The operations of `KeyValueStore`,
  `SetStore` and `CounterStore`.
* `Reply`, `Reply.Agree`: Answers, and when two are the same up to the order
  of members.
* `KeyValueOp.onMap`, `SetOp.onMap`, `CounterOp.onMap`: The operations on a
  map.
-/

namespace Sandbox.Stores

/-- `KeyValueStore<T>` -/
inductive KeyValueOp (α : Type) where
  | get (key : String)
  | set (key : String) (value : α) (ttlSeconds : Int)
  | update (key : String) (value : α)
  | delete (key : String)
  | getAndDelete (key : String)
  | setIfAbsent (key : String) (value : α) (ttlSeconds : Int)

/-- `SetStore` -/
inductive SetOp where
  | add (key member : String) (ttlSeconds : Int)
  | remove (key member : String)
  | members (key : String)
  | delete (key : String)

/-- `CounterStore` -/
inductive CounterOp where
  | increment (key : String) (ttlSeconds : Int)

/-- What the promise of an operation resolves to, or that it is rejected. -/
inductive Reply (α : Type) where
  | done
  | value (found : Option α)
  | flag (written : Bool)
  | members (members : List String)
  | count (value : Int)
  | rejected
  deriving DecidableEq

/-- The same answer. The members of a set may come in any order. -/
inductive Reply.Agree {α : Type} : Reply α → Reply α → Prop where
  | refl (reply : Reply α) : Agree reply reply
  | members {xs ys : List String} (h : xs.Perm ys) : Agree (.members xs) (.members ys)

/-- The values an operation writes. -/
def KeyValueOp.written {α : Type} : KeyValueOp α → Option α
  | .set _ value _ => some value
  | .update _ value => some value
  | .setIfAbsent _ value _ => some value
  | _ => none

/-- The time to live an operation gives. -/
def KeyValueOp.ttl {α : Type} : KeyValueOp α → Option Int
  | .set _ _ ttlSeconds => some ttlSeconds
  | .setIfAbsent _ _ ttlSeconds => some ttlSeconds
  | _ => none

def SetOp.ttl : SetOp → Option Int
  | .add _ _ ttlSeconds => some ttlSeconds
  | _ => none

def CounterOp.ttl : CounterOp → Option Int
  | .increment _ ttlSeconds => some ttlSeconds

variable {α : Type}

/-- The operations of `KeyValueStore<T>` on a map. -/
def KeyValueOp.onMap (map : Ttl.Map String α) (now : Int) :
    KeyValueOp α → Reply α × Ttl.Map String α
  | .get key => (.value (Ttl.get map now key), map)
  | .set key value ttlSeconds => (.done, Ttl.set map now key value ttlSeconds)
  | .update key value =>
      let (written, map) := Ttl.update map now key value
      (.flag written, map)
  | .delete key => (.done, Ttl.delete map key)
  | .getAndDelete key =>
      let (found, map) := Ttl.getAndDelete map now key
      (.value found, map)
  | .setIfAbsent key value ttlSeconds =>
      let (written, map) := Ttl.setIfAbsent map now key value ttlSeconds
      (.flag written, map)

/-- The operations of `SetStore` on a map of sets. -/
def SetOp.onMap (map : Ttl.Sets String String) (now : Int) :
    SetOp → Reply α × Ttl.Sets String String
  | .add key member ttlSeconds => (.done, Ttl.add map now key member ttlSeconds)
  | .remove key member => (.done, Ttl.remove map now key member)
  | .members key => (.members (Ttl.members map now key), map)
  | .delete key => (.done, Ttl.delete map key)

/-- The operation of `CounterStore` on a map of counts. -/
def CounterOp.onMap (map : Ttl.Map String Nat) (now : Int) :
    CounterOp → Reply α × Ttl.Map String Nat
  | .increment key ttlSeconds =>
      let (value, map) := Ttl.increment map now key ttlSeconds
      (.count value, map)

end Sandbox.Stores
