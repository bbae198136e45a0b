import Sandbox.Interleave.Program
import Sandbox.Ttl.Map

/-!
# Stores as Programs

Where a map of `Ttl.Map` lives inside a larger state, and its operations as
programs on that state. Every operation is one atomic action: reading and
deleting at once is one action, reading and then writing back is two.

The operations ending in `Logged` leave an event. They are the same actions.

## Main definitions

* `Store`, `SetStore`: A map and a clock inside a state.
* `Store.get`, `Store.set`, `Store.update`, `Store.delete`,
  `Store.getAndDelete`, `Store.setIfAbsent`: The operations on values.
* `SetStore.add`, `SetStore.remove`, `SetStore.members`, `SetStore.delete`:
  The operations on sets.
-/

namespace Ttl

open Interleave

/-- A map of values inside a state, with the clock it is read at. -/
structure Store (σ κ α : Type) where
  now : σ → Int
  entries : σ → Map κ α
  replace : Map κ α → σ → σ

/-- A map of sets inside a state. -/
abbrev SetStore (σ κ α : Type) : Type := Store σ κ (List α)

variable {σ ω ε κ α : Type} [DecidableEq κ]

namespace Store

def get (st : Store σ κ α) (k : κ) : Prog σ ω ε (Option α) :=
  .read fun s => Ttl.get (st.entries s) (st.now s) k

/-- `get` that leaves an event. -/
def getLogged (st : Store σ κ α) (e : Option α → ε) (k : κ) : Prog σ ω ε (Option α) :=
  .logged e fun s => (Ttl.get (st.entries s) (st.now s) k, s)

def set (st : Store σ κ α) (k : κ) (v : α) (ttl : Int) : Prog σ ω ε Unit :=
  .write fun s => st.replace (Ttl.set (st.entries s) (st.now s) k v ttl) s

/-- `set` that leaves an event. -/
def setLogged (st : Store σ κ α) (e : ε) (k : κ) (v : α) (ttl : Int) : Prog σ ω ε Unit :=
  .logged (fun _ => e) fun s =>
    ((), st.replace (Ttl.set (st.entries s) (st.now s) k v ttl) s)

def update (st : Store σ κ α) (k : κ) (v : α) : Prog σ ω ε Bool :=
  .atomic fun s =>
    let r := Ttl.update (st.entries s) (st.now s) k v
    (r.1, st.replace r.2 s)

def delete (st : Store σ κ α) (k : κ) : Prog σ ω ε Unit :=
  .write fun s => st.replace (Ttl.delete (st.entries s) k) s

/-- `delete` that leaves an event. -/
def deleteLogged (st : Store σ κ α) (e : ε) (k : κ) : Prog σ ω ε Unit :=
  .logged (fun _ => e) fun s => ((), st.replace (Ttl.delete (st.entries s) k) s)

def getAndDelete (st : Store σ κ α) (k : κ) : Prog σ ω ε (Option α) :=
  .atomic fun s =>
    let r := Ttl.getAndDelete (st.entries s) (st.now s) k
    (r.1, st.replace r.2 s)

/-- `getAndDelete` that leaves an event. -/
def getAndDeleteLogged (st : Store σ κ α) (e : Option α → ε) (k : κ) : Prog σ ω ε (Option α) :=
  .logged e fun s =>
    let r := Ttl.getAndDelete (st.entries s) (st.now s) k
    (r.1, st.replace r.2 s)

def setIfAbsent (st : Store σ κ α) (k : κ) (v : α) (ttl : Int) : Prog σ ω ε Bool :=
  .atomic fun s =>
    let r := Ttl.setIfAbsent (st.entries s) (st.now s) k v ttl
    (r.1, st.replace r.2 s)

/-- `setIfAbsent` that leaves an event. -/
def setIfAbsentLogged (st : Store σ κ α) (e : Bool → ε) (k : κ) (v : α) (ttl : Int) :
    Prog σ ω ε Bool :=
  .logged e fun s =>
    let r := Ttl.setIfAbsent (st.entries s) (st.now s) k v ttl
    (r.1, st.replace r.2 s)

end Store

namespace SetStore

variable [DecidableEq α]

def add (st : SetStore σ κ α) (k : κ) (x : α) (ttl : Int) : Prog σ ω ε Unit :=
  .write fun s => st.replace (Ttl.add (st.entries s) (st.now s) k x ttl) s

/-- `add` that leaves an event. -/
def addLogged (st : SetStore σ κ α) (e : ε) (k : κ) (x : α) (ttl : Int) : Prog σ ω ε Unit :=
  .logged (fun _ => e) fun s =>
    ((), st.replace (Ttl.add (st.entries s) (st.now s) k x ttl) s)

def remove (st : SetStore σ κ α) (k : κ) (x : α) : Prog σ ω ε Unit :=
  .write fun s => st.replace (Ttl.remove (st.entries s) (st.now s) k x) s

def members (st : SetStore σ κ α) (k : κ) : Prog σ ω ε (List α) :=
  .read fun s => Ttl.members (st.entries s) (st.now s) k

/-- `members` that leaves an event. -/
def membersLogged (st : SetStore σ κ α) (e : List α → ε) (k : κ) : Prog σ ω ε (List α) :=
  .logged e fun s => (Ttl.members (st.entries s) (st.now s) k, s)

def delete (st : SetStore σ κ α) (k : κ) : Prog σ ω ε Unit :=
  Store.delete st k

end SetStore

end Ttl
