import Sandbox.Interleave.Effects
import Sandbox.Interleave.Tokens
import Sandbox.Shared.RemoteJwks

/-!
# Fetching Keys Again

How often the keys are fetched, in any interleaving of callers and fetches.
One fetch is in flight at most, forced fetches that replace a key set are a
minute apart, the cache is the last document that was parsed, and callers get
an error only if there never was one.

How soon a cache that has expired is renewed is another matter. An attempt
that fails counts like one that succeeds when the age of the cache is looked
at, so it is not repeated after a minute, as it was meant to be, but after
ten.

A fetch in flight is held by the call that has started it, and the promise in
the source says that there is one. The errors that calls were answered are
held, too, as facts.

## Main definitions

* `lastParsed`, `lastStart`, `lastSuccess`, `succeeded`: What a history says of
  the fetches.
* `Flight`, `Inv`: The fetch in flight, and the invariant.
* `Waited`, `Resolved`, `Handed`: Who waits for a promise, and what is handed on.
* `Trusted`: An attempt that has not succeeded and is trusted all the same.

## Theorems

* `jwks_throttled`: The fetches of every run.
* `fresh_unless_trusted`: When a key set is used, and when it is fresh.
* `failed_refresh_is_trusted`: That it is not always.
-/

namespace Sandbox.Jwks

open Interleave

variable {κ : Type}

section Histories

/-- The last document that was parsed. -/
def lastParsed : History κ → Option κ
  | [] => none
  | e :: h =>
      match e.2 with
      | .fetched (.parsed keys) => some keys
      | _ => lastParsed h

/-- When the last fetch was started. -/
def lastStart : History κ → Option Int
  | [] => none
  | e :: h =>
      match e.2 with
      | .started _ _ _ now => some now
      | _ => lastStart h

/-- When the last fetch that succeeded was started. Only one is in flight at a
    time, so it is the last one before its end. -/
def lastSuccess : History κ → Option Int
  | [] => none
  | e :: h =>
      match e.2 with
      | .fetched (.parsed _) => lastStart h
      | _ => lastSuccess h

/-- The last fetch has ended, with a document. -/
def succeeded : History κ → Bool
  | [] => false
  | e :: h =>
      match e.2 with
      | .fetched (.parsed _) => true
      | .fetched _ => false
      | .started .. => false
      | _ => succeeded h

def isStart (e : Call × Event κ) : Bool :=
  match e.2 with
  | .started .. => true
  | _ => false

def isEnd (e : Call × Event κ) : Bool :=
  match e.2 with
  | .fetched _ => true
  | _ => false

/-- How many fetches were started, and how many have ended. -/
def starts (h : History κ) : Nat := h.countP isStart

def ends (h : History κ) : Nat := h.countP isEnd

/-- The promise a caller has got. -/
def Event.waits : Event κ → Option Nat
  | .joined promise .. | .started promise .. => some promise
  | _ => none

/-- A call has joined a fetch or started it. -/
def Waited (h : History κ) (call : Call) (promise : Nat) : Prop :=
  ∃ x, (call, x) ∈ h ∧ x.waits = some promise

/-- A promise was resolved with a result, and if that was an error, no fetch
    had ever succeeded. -/
def Resolved (h : History κ) (promise : Nat) (result : Except String κ) : Prop :=
  ∃ later starter earlier, h = later ++ (starter, .resolved promise result) :: earlier ∧
    ∀ reason, result = .error reason → lastParsed earlier = none

/-- Whoever was returned a result had waited for the promise, which was
    resolved with it. -/
def Handed : History κ → Prop
  | [] => True
  | e :: h =>
      (∀ promise result, e.2 = .returned promise result →
        Waited h e.1 promise ∧ Resolved h promise result) ∧ Handed h

/-- Two forced fetches that replace a key set. -/
def Apart (late early : Call × Event κ) : Prop :=
  ∀ i j t t', late.2 = .started j true true t' → early.2 = .started i true true t →
    refreshMinInterval ≤ t' - t

variable {h : History κ} {call : Call}

/-- A call that waited for a promise has done so in every longer history. -/
theorem Waited.cons {promise : Nat} (hw : Waited h call promise) (e : Call × Event κ) :
    Waited (e :: h) call promise :=
  hw.imp fun _ hx => ⟨List.mem_cons_of_mem e hx.1, hx.2⟩

/-- A promise that is resolved stays so in every longer history. -/
theorem Resolved.cons {promise : Nat} {result : Except String κ} (hr : Resolved h promise result)
    (e : Call × Event κ) : Resolved (e :: h) promise result := by
  rcases hr with ⟨later, starter, earlier, rfl, hnone⟩
  exact ⟨e :: later, starter, earlier, rfl, hnone⟩

/-- The same for every event of the history. -/
theorem Handed.at {later earlier : History κ} {promise : Nat} {result : Except String κ}
    (hh : Handed (later ++ (call, .returned promise result) :: earlier)) :
    Waited earlier call promise ∧ Resolved earlier promise result := by
  induction later with
  | nil => exact hh.1 promise result rfl
  | cons e later ih => exact ih hh.2

/-- A fetch that has ended without a document changes nothing but the count. -/
theorem lastParsed_fetched (call : Call) (h : History κ) {outcome : FetchOutcome κ}
    (hno : ∀ keys, outcome ≠ .parsed keys) :
    lastParsed ((call, .fetched outcome) :: h) = lastParsed h := by
  cases outcome with
  | parsed keys => exact absurd rfl (hno keys)
  | _ => rfl

/-- After a success the last start is the last successful one. -/
theorem lastSuccess_of_succeeded (hs : succeeded h = true) : lastSuccess h = lastStart h := by
  induction h with
  | nil => cases hs
  | cons e h ih =>
      rcases e with ⟨c, x⟩
      cases x with
      -- A fetch that was started last has not ended.
      | started promise forced cached now => cases hs
      | fetched outcome =>
          cases outcome with
          | parsed keys => rfl
          | _ => cases hs
      | _ => exact ih hs

theorem count_started (promise : Nat) (forced had : Bool) (now : Int) :
    starts ((call, .started promise forced had now) :: h) = starts h + 1 ∧
      ends ((call, .started promise forced had now) :: h) = ends h :=
  ⟨List.countP_cons_of_pos rfl, List.countP_cons_of_neg nofun⟩

/-- An answer of the endpoint counts as one end and no start. -/
theorem count_fetched (outcome : FetchOutcome κ) :
    starts ((call, .fetched outcome) :: h) = starts h ∧
      ends ((call, .fetched outcome) :: h) = ends h + 1 :=
  ⟨List.countP_cons_of_neg nofun, List.countP_cons_of_pos rfl⟩

/-- Where a document was parsed a fetch has ended. -/
theorem ends_pos_of_lastParsed (hs : (lastParsed h).isSome = true) : 0 < ends h := by
  induction h with
  | nil => cases hs
  | cons e h ih =>
      unfold ends at ih ⊢
      rw [List.countP_cons]
      rcases e with ⟨c, x⟩
      cases x with
      | fetched outcome => exact Nat.succ_pos _
      | _ => exact Nat.lt_of_lt_of_le (ih hs) (Nat.le_add_right _ _)

theorem lastStart_of_starts_pos (hs : 0 < starts h) : ∃ t, lastStart h = some t := by
  induction h with
  | nil => cases hs
  | cons e h ih =>
      rcases e with ⟨c, x⟩
      cases x with
      | started promise forced cached now => exact ⟨now, rfl⟩
      | _ => exact ih hs

end Histories

section Entries

/-- What a caller gets at once, and what that means. Whoever does not force a
    fetch gets a key set if the last attempt is young enough. -/
inductive Entered (forced : Bool) (s : State κ) : Entry κ → State κ → Prop
  | cached (keys : κ) (hkeys : s.source.cached = some keys)
      (hfresh : forced = false → s.clock - s.source.attemptedAt < cacheTtl) :
      Entered forced s (.cached keys s.clock) s
  | joined (promise : Nat) (forcedAt : Int) (hsome : s.source.inflight = some promise)
      (hforced : forcedAt = if forced then s.clock else s.source.forcedAt)
      (hold : forced = false → s.source.cached ≠ none →
        ¬s.clock - s.source.attemptedAt < cacheTtl) :
      Entered forced s (.joined promise s.clock)
        { s with source := { s.source with forcedAt := forcedAt } }
  | started (forcedAt : Int) (hnone : s.source.inflight = none)
      (hforced : forcedAt = if forced then s.clock else s.source.forcedAt)
      (hwaited : forced = true → s.source.cached.isSome = true →
        refreshMinInterval ≤ s.clock - s.source.forcedAt)
      (hold : forced = false → s.source.cached ≠ none →
        ¬s.clock - s.source.attemptedAt < cacheTtl) :
      Entered forced s (.started s.promises.length s.source.cached.isSome s.clock)
        { s with
          source := ⟨s.source.cached, s.clock, forcedAt, some s.promises.length⟩
          promises := s.promises ++ [none] }

/-- A call that need not fetch shares what is cached or in flight. -/
theorem entered_share {forced : Bool} {s : State κ} {forcedAt : Int}
    (hforced : forcedAt = if forced then s.clock else s.source.forcedAt)
    (hwaited : forced = true → s.source.cached.isSome = true →
      refreshMinInterval ≤ s.clock - s.source.forcedAt)
    (hold : forced = false → s.source.cached ≠ none →
      ¬s.clock - s.source.attemptedAt < cacheTtl) :
    Entered forced s (share { s with source := { s.source with forcedAt := forcedAt } }).1
      (share { s with source := { s.source with forcedAt := forcedAt } }).2 := by
  unfold share
  cases hinflight : s.source.inflight with
  | some promise => exact .joined promise forcedAt hinflight hforced hold
  | none => exact .started forcedAt hinflight hforced hwaited hold

/-- Entering `get` has one of the outcomes of its code. -/
theorem entered (forced : Bool) (s : State κ) :
    Entered forced s (enter forced s).1 (enter forced s).2 := by
  -- The four cases of the code: forced or not, with keys cached or without.
  unfold enter
  dsimp only
  split
  · next keys hkeys =>
      by_cases hsoon : s.clock - s.source.forcedAt < refreshMinInterval
      · rw [if_pos hsoon]
        exact .cached keys hkeys nofun
      · rw [if_neg hsoon]
        exact entered_share rfl (fun _ _ => not_lt.mp hsoon) nofun
  · next hnone =>
      refine entered_share rfl (fun _ hsome => ?_) nofun
      rw [hnone] at hsome
      cases hsome
  · next keys hkeys =>
      by_cases hfresh : s.clock - s.source.attemptedAt < cacheTtl
      · rw [if_pos hfresh]
        exact .cached keys hkeys fun _ => hfresh
      · -- The shorter interval has passed where the longer one has.
        have hlong : ¬s.clock - s.source.attemptedAt < refreshMinInterval := by
          unfold refreshMinInterval
          unfold cacheTtl at hfresh
          omega
        rw [if_neg hfresh, if_neg hlong]
        exact @entered_share κ false s s.source.forcedAt rfl nofun fun _ _ => hfresh
  · next hnone =>
      exact @entered_share κ false s s.source.forcedAt rfl nofun fun _ hsome =>
        absurd hnone hsome

theorem entered_of_run {forced : Bool} {s s' : State κ} {entry : Entry κ}
    (hrun : some (enter forced s) = some (entry, s')) : Entered forced s entry s' := by
  have hrun' : enter forced s = (entry, s') := Option.some.inj hrun
  have hall := entered forced s
  rw [hrun'] at hall
  exact hall

/-- The end of a fetch: with a document, or without one and with what is
    cached. -/
theorem settle_cases (outcome : FetchOutcome κ) (s : State κ) :
    (∃ keys, outcome = .parsed keys ∧ settle outcome s =
        (.ok keys, { s with source := { s.source with cached := some keys } })) ∨
      (∀ keys, outcome ≠ .parsed keys) ∧ (settle outcome s).2 = s ∧
        ∀ e, (settle outcome s).1 = .error e → s.source.cached = none := by
  have hfallback : ∀ reason e, fallback reason s = .error e → s.source.cached = none := by
    intro reason e he
    unfold fallback at he
    split at he
    · cases he
    · assumption
  cases outcome with
  | parsed keys => exact .inl ⟨keys, rfl, rfl⟩
  | urlUnavailable reason => exact .inr ⟨nofun, rfl, hfallback _⟩
  | failed reason => exact .inr ⟨nofun, rfl, hfallback _⟩
  | status code => exact .inr ⟨nofun, rfl, hfallback _⟩
  | malformed => exact .inr ⟨nofun, rfl, hfallback _⟩

end Entries

section Invariant

/-- What a call holds: a fetch in flight, its result that is not handed on
    yet, the promise it waits for, or an error it was returned. -/
inductive Token (κ : Type)
  | fetching (promise : Nat)
  | settling (promise : Nat) (result : Except String κ)
  | waiting (call : Call) (promise : Nat)
  | failed (call : Call) (reason : String)

def Token.inFlight : Token κ → Bool
  | .fetching _ | .settling .. => true
  | .waiting .. | .failed .. => false

/-- The fetch in flight, if there is one, is known to the source and held by
    one call. -/
inductive Flight (s : State κ) (h : History κ) : Multiset (Token κ) → Prop
  | idle (hnone : s.source.inflight = none) (hcount : starts h = ends h) : Flight s h 0
  | fetching (promise : Nat) (hsome : s.source.inflight = some promise)
      (hcount : starts h = ends h + 1) : Flight s h {.fetching promise}
  | settling (promise : Nat) (result : Except String κ)
      (hsome : s.source.inflight = some promise) (hcount : starts h = ends h)
      (hfailed : ∀ e, result = .error e → lastParsed h = none) :
      Flight s h {.settling promise result}

/-- What is known of promises: how they were resolved, who waits for them, and
    who was returned what. -/
structure Facts (r : Multiset (Token κ)) (promises : List (Option (Except String κ)))
    (h : History κ) : Prop where
  resolved : ∀ promise result, promises[promise]? = some (some result) → Resolved h promise result
  handed : Handed h
  waiting : ∀ call promise, .waiting call promise ∈ r → Waited h call promise
  failed : ∀ call reason, .failed call reason ∈ r →
    ∃ promise, (call, .returned promise (.error reason)) ∈ h

structure Inv (r : Multiset (Token κ)) (s : State κ) (h : History κ) : Prop where
  flight : Flight s h (r.filter fun t => t.inFlight = true)
  cached : s.source.cached = lastParsed h
  attempted : ∀ t, lastStart h = some t → s.source.attemptedAt = t
  forced : ∀ e ∈ h, ∀ i t, e.2 = .started i true true t → t ≤ s.source.forcedAt ∧ t ≤ s.clock
  apart : h.Pairwise Apart
  facts : Facts r s.promises h

def refreshing (κ : Type) : Protocol (Multiset (Token κ)) (State κ) (Event κ) Call where
  guard := anyStep
  Inv := Inv

variable {r : Multiset (Token κ)} {s s' : State κ} {h h' : History κ} {call : Call}
  {promises : List (Option (Except String κ))}

/-- The fetch in flight depends on the source and the counts only. -/
theorem Flight.congr (hf : Flight s h r) (hsource : s'.source.inflight = s.source.inflight)
    (hstarts : starts h' = starts h) (hends : ends h' = ends h)
    (hparsed : lastParsed h' = lastParsed h) : Flight s' h' r := by
  cases hf with
  | idle hnone hcount => exact .idle (hsource.trans hnone) (by rw [hstarts, hends, hcount])
  | fetching promise hsome hcount =>
      exact .fetching promise (hsource.trans hsome) (by rw [hstarts, hends, hcount])
  | settling promise result hsome hcount hfailed =>
      exact .settling promise result (hsource.trans hsome) (by rw [hstarts, hends, hcount])
        fun e he => hparsed.trans (hfailed e he)

/-- Facts stay true when something happens that returns nothing. -/
theorem Facts.cons (hf : Facts r promises h) {x : Event κ}
    (hx : ∀ promise result, x ≠ .returned promise result) : Facts r promises ((call, x) :: h) where
  resolved i result hi := (hf.resolved i result hi).cons _
  handed := ⟨fun i result heq => absurd heq (hx i result), hf.handed⟩
  waiting c i hc := (hf.waiting c i hc).cons _
  failed c reason hc := (hf.failed c reason hc).imp fun _ h => List.mem_cons_of_mem _ h

/-- Whoever holds less knows less. -/
theorem Facts.mono {r' : Multiset (Token κ)} (hf : Facts r promises h) (hr : r' ≤ r) :
    Facts r' promises h where
  resolved := hf.resolved
  handed := hf.handed
  waiting c i hc := hf.waiting c i (Multiset.mem_of_le hr hc)
  failed c reason hc := hf.failed c reason (Multiset.mem_of_le hr hc)

/-- A token of a fetch in flight is no fact. -/
theorem Facts.hold (hf : Facts r promises h) {t : Token κ} (ht : t.inFlight = true) :
    Facts (t ::ₘ r) promises h where
  resolved := hf.resolved
  handed := hf.handed
  waiting c i hc := by
    rcases Multiset.mem_cons.mp hc with rfl | hc
    · cases ht
    · exact hf.waiting c i hc
  failed c reason hc := by
    rcases Multiset.mem_cons.mp hc with rfl | hc
    · cases ht
    · exact hf.failed c reason hc

/-- A caller that has got a promise waits for it. -/
theorem Facts.wait (hf : Facts r promises h) {promise : Nat} (hw : Waited h call promise) :
    Facts (.waiting call promise ::ₘ r) promises h where
  resolved := hf.resolved
  handed := hf.handed
  waiting c i hc := by
    rcases Multiset.mem_cons.mp hc with heq | hc
    · cases heq
      exact hw
    · exact hf.waiting c i hc
  failed c reason hc := by
    rcases Multiset.mem_cons.mp hc with heq | hc
    · cases heq
    · exact hf.failed c reason hc

/-- With no promise in flight, every fetch has ended. -/
theorem Inv.idle (hi : Inv r s h) (hnone : s.source.inflight = none) :
    r.filter (fun t => t.inFlight = true) = 0 ∧ starts h = ends h := by
  have hflight := hi.flight
  generalize r.filter (fun t => t.inFlight = true) = held at hflight
  cases hflight with
  | idle _ hcount => exact ⟨rfl, hcount⟩
  | fetching promise hsome _ => rw [hnone] at hsome; cases hsome
  | settling promise result hsome _ _ => rw [hnone] at hsome; cases hsome

theorem Inv.counts (hi : Inv r s h) : ends h ≤ starts h ∧ starts h ≤ ends h + 1 := by
  have hflight := hi.flight
  generalize r.filter (fun t => t.inFlight = true) = held at hflight
  cases hflight with
  | idle _ hcount => omega
  | fetching _ _ hcount => omega
  | settling _ _ _ hcount _ => omega

/-- The holder of the fetch in flight holds the only one. -/
theorem Inv.fetching {promise : Nat} (hi : Inv (.fetching promise ::ₘ r) s h) :
    r.filter (fun t => t.inFlight = true) = 0 ∧ s.source.inflight = some promise ∧
      starts h = ends h + 1 := by
  have hflight := hi.flight
  rw [Multiset.filter_cons_of_pos _ (by rfl)] at hflight
  generalize hheld : (Token.fetching promise ::ₘ r.filter fun t => t.inFlight = true) = held
    at hflight
  cases hflight with
  | idle _ _ => exact absurd hheld Multiset.cons_ne_zero
  | fetching promise' hsome hcount =>
      rcases (Multiset.singleton_eq_cons_iff _).mp hheld.symm with ⟨heq, hrest⟩
      cases heq
      exact ⟨hrest, hsome, hcount⟩
  | settling promise' result _ _ _ =>
      rcases (Multiset.singleton_eq_cons_iff _).mp hheld.symm with ⟨heq, _⟩
      cases heq

/-- A fetch that settles with an error had no key set parsed before. -/
theorem Inv.settling {promise : Nat} {result : Except String κ}
    (hi : Inv (.settling promise result ::ₘ r) s h) :
    r.filter (fun t => t.inFlight = true) = 0 ∧ starts h = ends h ∧
      ∀ e, result = .error e → lastParsed h = none := by
  have hflight := hi.flight
  rw [Multiset.filter_cons_of_pos _ (by rfl)] at hflight
  generalize hheld : (Token.settling promise result ::ₘ
    r.filter fun t => t.inFlight = true) = held at hflight
  cases hflight with
  | idle _ _ => exact absurd hheld Multiset.cons_ne_zero
  | fetching promise' _ _ =>
      rcases (Multiset.singleton_eq_cons_iff _).mp hheld.symm with ⟨heq, _⟩
      cases heq
  | settling promise' result' _ hcount hfailed =>
      rcases (Multiset.singleton_eq_cons_iff _).mp hheld.symm with ⟨heq, hrest⟩
      cases heq
      exact ⟨hrest, hcount, hfailed⟩

/-- An answer from the cache is an event that says nothing of fetches. -/
theorem Inv.answered (hi : Inv r s h) (forced : Bool) (now : Int) :
    Inv r s ((call, .answered forced now) :: h) where
  flight := hi.flight.congr rfl rfl rfl rfl
  cached := hi.cached
  attempted := hi.attempted
  forced e he := by
    rcases List.mem_cons.mp he with rfl | he
    · exact nofun
    · exact hi.forced e he
  apart := List.pairwise_cons.mpr ⟨fun _ _ => nofun, hi.apart⟩
  facts := hi.facts.cons fun _ _ heq => by cases heq

/-- A forced get that joins a fetch counts as one, and its caller waits. -/
theorem Inv.joined (hi : Inv r s h) {forced : Bool} {forcedAt : Int} (promise : Nat) (now : Int)
    (hforced : forcedAt = if forced then s.clock else s.source.forcedAt) :
    Inv (.waiting call promise ::ₘ r) { s with source := { s.source with forcedAt := forcedAt } }
      ((call, .joined promise forced now) :: h) where
  flight := by
    rw [Multiset.filter_cons_of_neg _ (by nofun)]
    exact hi.flight.congr rfl rfl rfl rfl
  cached := hi.cached
  attempted := hi.attempted
  forced e he i t ht := by
    rcases List.mem_cons.mp he with rfl | he
    · cases ht
    · rcases hi.forced e he i t ht with ⟨hle, hclock⟩
      refine ⟨?_, hclock⟩
      rw [hforced]
      split
      · exact hclock
      · exact hle
  -- Joining starts no fetch.
  apart := List.pairwise_cons.mpr ⟨fun _ _ => nofun, hi.apart⟩
  facts := (hi.facts.cons fun _ _ heq => by cases heq).wait ⟨_, List.mem_cons_self, rfl⟩

/-- A fetch that starts is the only one, and late enough if it was forced. -/
theorem Inv.started (hi : Inv r s h) (call : Call) {forced : Bool} {forcedAt : Int}
    (hnone : s.source.inflight = none)
    (hforced : forcedAt = if forced then s.clock else s.source.forcedAt)
    (hwaited : forced = true → s.source.cached.isSome = true →
      refreshMinInterval ≤ s.clock - s.source.forcedAt) :
    Inv (.fetching s.promises.length ::ₘ .waiting call s.promises.length ::ₘ r)
      { s with
        source := ⟨s.source.cached, s.clock, forcedAt, some s.promises.length⟩
        promises := s.promises ++ [none] }
      ((call, .started s.promises.length forced s.source.cached.isSome s.clock) :: h) where
  -- No fetch was in flight, so this is the only one.
  flight := by
    rcases hi.idle hnone with ⟨hheld, hcount⟩
    rw [Multiset.filter_cons_of_pos _ (by rfl), Multiset.filter_cons_of_neg _ (by nofun), hheld]
    refine .fetching _ rfl ?_
    rw [(count_started _ _ _ _).1, (count_started _ _ _ _).2, hcount]
  cached := hi.cached
  attempted t ht := Option.some.inj ht
  forced e he i t ht := by
    rcases List.mem_cons.mp he with rfl | he
    · rcases Event.started.inj ht with ⟨_, rfl, _, rfl⟩
      refine ⟨?_, le_refl _⟩
      rw [hforced, if_pos rfl]
    · rcases hi.forced e he i t ht with ⟨hle, hclock⟩
      refine ⟨?_, hclock⟩
      rw [hforced]
      split
      · exact hclock
      · exact hle
  -- A forced fetch has waited for the interval, if there are keys.
  apart := by
    refine List.pairwise_cons.mpr ⟨fun early hearly i j t t' hlate hstart => ?_, hi.apart⟩
    have hearlier := (hi.forced early hearly i t hstart).1
    rcases Event.started.inj hlate with ⟨_, hforced', hhad, rfl⟩
    have hlong := hwaited hforced' hhad
    omega
  -- The new promise is not resolved yet.
  facts := by
    have hnew : Facts r (s.promises ++ [none]) h := by
      refine ⟨fun i result hresult => ?_, hi.facts.handed, hi.facts.waiting, hi.facts.failed⟩
      rw [List.getElem?_append] at hresult
      split at hresult
      · exact hi.facts.resolved i result hresult
      · rcases List.mem_singleton.mp (List.mem_of_getElem? hresult) with hnone
        cases hnone
    exact ((hnew.cons fun _ _ heq => by cases heq).wait ⟨_, List.mem_cons_self, rfl⟩).hold rfl

/-- The document of a fetch is cached; without one nothing is, that was not
    before. -/
theorem Inv.fetched {promise : Nat} (hi : Inv (.fetching promise ::ₘ r) s h)
    (outcome : FetchOutcome κ) :
    Inv (.settling promise (settle outcome s).1 ::ₘ r) (settle outcome s).2
      ((call, .fetched outcome) :: h) := by
  rcases hi.fetching with ⟨hheld, hsome, hcount⟩
  have hcount' : starts ((call, .fetched outcome) :: h) = ends ((call, .fetched outcome) :: h) := by
    rw [(count_fetched outcome).1, (count_fetched outcome).2, hcount]
  have hforced : ∀ e ∈ (call, Event.fetched outcome) :: h, ∀ i t, e.2 = .started i true true t →
      t ≤ s.source.forcedAt ∧ t ≤ s.clock := by
    intro e he
    rcases List.mem_cons.mp he with rfl | he
    · exact nofun
    · exact hi.forced e he
  have hfacts : ∀ result : Except String κ,
      Facts (.settling promise result ::ₘ r) s.promises ((call, .fetched outcome) :: h) :=
    fun _ => ((hi.facts.mono (Multiset.le_cons_self r _)).cons fun _ _ heq => by cases heq).hold rfl
  -- A document that can be read is cached, otherwise what was cached stays.
  rcases settle_cases outcome s with ⟨keys, rfl, hsettle⟩ | ⟨hno, hsame, herror⟩
  · rw [hsettle]
    exact
      { flight := by
          rw [Multiset.filter_cons_of_pos _ (by rfl), hheld]
          exact .settling _ _ hsome hcount' nofun
        cached := rfl
        attempted := hi.attempted
        forced := hforced
        apart := List.pairwise_cons.mpr ⟨fun _ _ => nofun, hi.apart⟩
        facts := hfacts _ }
  · have hparsed := lastParsed_fetched call h hno
    rw [hsame]
    exact
      { flight := by
          rw [Multiset.filter_cons_of_pos _ (by rfl), hheld]
          refine .settling _ _ hsome hcount' fun e he => ?_
          rw [hparsed, ← hi.cached]
          exact herror e he
        cached := hi.cached.trans hparsed.symm
        attempted := hi.attempted
        forced := hforced
        apart := List.pairwise_cons.mpr ⟨fun _ _ => nofun, hi.apart⟩
        facts := hfacts _ }

/-- The promise is cleared and resolved. If it is resolved with an error,
    nothing was ever parsed. -/
theorem Inv.resolved {promise : Nat} {result : Except String κ}
    (hi : Inv (.settling promise result ::ₘ r) s h) :
    Inv r
      { s with
        source := { s.source with inflight := none }
        promises := s.promises.set promise (some result) }
      ((call, .resolved promise result) :: h) where
  -- The fetch that settles was the only one in flight.
  flight := by
    rcases hi.settling with ⟨hheld, hcount, _⟩
    rw [hheld]
    exact .idle rfl hcount
  cached := hi.cached
  attempted := hi.attempted
  forced e he := by
    rcases List.mem_cons.mp he with rfl | he
    · exact nofun
    · exact hi.forced e he
  apart := List.pairwise_cons.mpr ⟨fun _ _ => nofun, hi.apart⟩
  facts := by
    have hrest := hi.facts.mono (Multiset.le_cons_self r _)
    have hnew : Facts r s.promises ((call, .resolved promise result) :: h) :=
      hrest.cons fun _ _ heq => by cases heq
    refine ⟨fun i result' hresult => ?_, hnew.handed, hnew.waiting, hnew.failed⟩
    -- The promise that is resolved has this result, and the others theirs.
    rw [List.getElem?_set] at hresult
    split at hresult
    · next heq =>
        subst heq
        split at hresult
        · cases hresult
          exact ⟨[], call, h, rfl, hi.settling.2.2⟩
        · cases hresult
    · exact hnew.resolved i result' hresult

/-- The error that a call was returned. -/
def errorOf (call : Call) : Except String κ → Multiset (Token κ)
  | .ok _ => 0
  | .error reason => {.failed call reason}

/-- Whoever waits for a promise is returned its result. -/
theorem Inv.returned {promise : Nat} {result : Except String κ}
    (hi : Inv (.waiting call promise ::ₘ r) s h)
    (hread : s.promises[promise]? = some (some result)) :
    Inv (errorOf call result + r) s ((call, .returned promise result) :: h) where
  -- A call that returns held no fetch.
  flight := by
    have hflight := hi.flight
    rw [Multiset.filter_cons_of_neg _ (by nofun)] at hflight
    have hheld : (errorOf call result).filter (fun t : Token κ => t.inFlight = true) = 0 := by
      -- Only an error leaves a claim behind, and it is in the history now.
      cases result with
      | ok keys => rfl
      | error reason => rfl
    rw [Multiset.filter_add, hheld, zero_add]
    exact hflight.congr rfl rfl rfl rfl
  cached := hi.cached
  attempted := hi.attempted
  forced e he := by
    rcases List.mem_cons.mp he with rfl | he
    · exact nofun
    · exact hi.forced e he
  apart := List.pairwise_cons.mpr ⟨fun _ _ => nofun, hi.apart⟩
  facts := by
    -- It waited for this promise, whose result was stored.
    have hwaited := hi.facts.waiting call promise (Multiset.mem_cons_self _ _)
    have hresolved := hi.facts.resolved promise result hread
    refine ⟨fun i result' hresult => (hi.facts.resolved i result' hresult).cons _,
      ⟨?_, hi.facts.handed⟩, fun c i hc => ?_, fun c reason hc => ?_⟩
    · intro i result' heq
      cases heq
      exact ⟨hwaited, hresolved⟩
    · refine (hi.facts.waiting c i (Multiset.mem_cons_of_mem ?_)).cons _
      cases result with
      | ok keys => exact (zero_add r) ▸ hc
      | error reason =>
          rcases Multiset.mem_cons.mp hc with heq | hc
          · cases heq
          · exact hc
    · have hold : ∀ c reason, Token.failed c reason ∈ r →
          ∃ i, (c, Event.returned i (.error reason)) ∈ (call, .returned promise result) :: h :=
        fun c reason hc => (hi.facts.failed c reason (Multiset.mem_cons_of_mem hc)).imp
          fun _ h => List.mem_cons_of_mem _ h
      cases result with
      | ok keys => exact hold c reason ((zero_add r) ▸ hc)
      | error reason' =>
          rcases Multiset.mem_cons.mp hc with heq | hc
          · cases heq
            exact ⟨promise, List.mem_cons_self⟩
          · exact hold c reason hc

end Invariant

section Calls

/-- A call that has ended holds the error it was returned, if it was one. -/
def Answered (call : Call) (a : Except String κ) (r : Multiset (Token κ)) : Prop :=
  r = errorOf call a

/-- A call that waited answers with the result of its promise. -/
theorem safe_settled (call : Call) (promise : Nat) :
    Safe (refreshing κ) call (settled promise) {.waiting call promise} (Answered call) := by
  intro F s h i result s' hinv hrun _
  rcases Option.map_eq_some_iff.mp hrun with ⟨_, hread, heq⟩
  cases heq
  have hi : Inv (.waiting call promise ::ₘ F) s h := hinv
  exact ⟨errorOf call result, hi.returned (Option.join_eq_some_iff.mp hread), rfl⟩

theorem safe_refresh (call : Call) (promise : Nat) :
    Safe (refreshing κ) call (refresh promise) {.fetching promise} fun _ r => r = 0 := by
  refine safe_bind (safe_bind ?_)
  intro F s h outcome result s' hinv hrun _
  cases hrun
  have hi : Inv (.fetching promise ::ₘ F) s h := hinv
  have hi' : Inv (.settling promise (settle outcome s).1 ::ₘ F) (settle outcome s).2
      ((call, .fetched outcome) :: h) := hi.fetched outcome
  refine ⟨({Token.settling promise (settle outcome s).1} : Multiset (Token κ)), hi', ?_⟩
  intro F s h _ _ s' hinv hrun _
  cases hrun
  have hi : Inv (.settling promise _ ::ₘ F) s h := hinv
  refine ⟨0, ?_, rfl⟩
  rw [zero_add]
  exact hi.resolved

/-- A call of `get` answers by the rules of the cache. -/
theorem safe_get (call : Call) :
    Safe (refreshing κ) call (get call.forceRefresh) 0 (Answered call) := by
  refine safe_bind ?_
  intro F s h i entry s' hinv hrun _
  rw [zero_add] at hinv
  have hi : Inv F s h := hinv
  cases entered_of_run hrun with
  | cached keys hkeys hfresh =>
      refine ⟨0, ?_, rfl⟩
      rw [zero_add]
      exact hi.answered _ _
  | joined promise forcedAt hsome hforced hold =>
      have hi' : Inv (.waiting call promise ::ₘ F) _
          ((call, .joined promise call.forceRefresh s.clock) :: h) := hi.joined promise _ hforced
      exact ⟨({Token.waiting call promise} : Multiset (Token κ)), hi', safe_settled call promise⟩
  | started forcedAt hnone hforced hwaited hold =>
      -- The starter waits for its own promise, too.
      have hi' := hi.started call hnone hforced hwaited
      refine ⟨({Token.fetching s.promises.length} + {Token.waiting call s.promises.length} :
        Multiset (Token κ)), ?_, ?_⟩
      · rw [add_assoc, Multiset.singleton_add, Multiset.singleton_add]
        exact hi'
      · refine safe_seq (safe_frame _ (safe_refresh call _)) ?_
        rintro _ _ ⟨q, rfl, rfl⟩
        rw [zero_add]
        exact safe_settled call _

end Calls

section Runs

variable {p q : Pool (State κ) (FetchOutcome κ) (Event κ) Call fun _ => Except String κ}
  {clock : Int}

/-- A source that was just made satisfies the invariant. -/
theorem inv_start (clock : Int) : Inv (κ := κ) 0 (State.start clock) [] where
  flight := .idle rfl rfl
  cached := rfl
  attempted := nofun
  forced := nofun
  apart := .nil
  facts := ⟨nofun, trivial, fun _ _ he => absurd he (Multiset.notMem_zero _),
    fun _ _ he => absurd he (Multiset.notMem_zero _)⟩

/-- Time passes, and what is past stays so. -/
theorem inv_tick {r : Multiset (Token κ)} {s s' : State κ} {h : History κ} {t : Change}
    (ht : (jwksSystem κ).env t s = some s') (hi : Inv r s h) : Inv r s' h := by
  cases t with
  | tick seconds =>
      cases ht
      refine ⟨hi.flight.congr rfl rfl rfl rfl, hi.cached, hi.attempted,
        fun e he i t hstart => ?_, hi.apart, hi.facts⟩
      rcases hi.forced e he i t hstart with ⟨hle, hclock⟩
      exact ⟨hle, hclock.trans (Int.le_add_of_nonneg_right (Int.natCast_nonneg seconds))⟩

theorem ok_of_reachable (h : Reachable (jwksSystem κ) anyStep (State.start clock) p) :
    PoolOk (refreshing κ) Answered p :=
  poolOk_of_reachable safe_get (fun _ _ _ _ _ ht hi => inv_tick ht hi) (inv_start clock) h

theorem inv_of_reachable (h : Reachable (jwksSystem κ) anyStep (State.start clock) p) :
    ∃ r, Inv r p.store p.trace := by
  rcases ok_of_reachable h with ⟨rs, _, hinv⟩
  exact ⟨rs.sum, hinv⟩

/-- Whether a get was forced, and when. -/
def Event.asked : Event κ → Option (Bool × Int)
  | .answered forced now | .joined _ forced now | .started _ forced _ now => some (forced, now)
  | _ => none

/-- A get that is not forced is answered from the cache if there are keys and
    the last attempt was within the longer interval. -/
def decides (s : State κ) : Option (Event κ) → State κ → Prop
  | none, _ => True
  | some x, _ => ∀ now, x.asked = some (false, now) →
      (x = .answered false now ↔
        s.source.cached ≠ none ∧ now - s.source.attemptedAt < cacheTtl)

/-- An event that is no answer, where there are no keys or they are old. -/
theorem decides_other {s s' : State κ} {x : Event κ} (hx : ∀ now, x ≠ .answered false now)
    (hold : x.asked = some (false, s.clock) → s.source.cached ≠ none →
      ¬s.clock - s.source.attemptedAt < cacheTtl)
    (hclock : ∀ forced now, x.asked = some (forced, now) → now = s.clock) :
    decides s (some x) s' := by
  intro now hasked
  have hnow := hclock false now hasked
  subst hnow
  exact iff_of_false (hx _) fun h => hold hasked h.1 h.2

theorem decides_get (forced : Bool) : Effects (decides (κ := κ)) (get forced) := by
  have hsettled : ∀ promise, Effects (decides (κ := κ)) (settled promise) :=
    fun promise => effects_act fun _ _ _ _ _ => nofun
  refine effects_bind (effects_act fun i s entry s' hrun => ?_) fun entry => ?_
  · cases entered_of_run hrun with
    | cached keys hkeys hfresh =>
        intro now hasked
        cases hasked
        exact iff_of_true rfl ⟨by rw [hkeys]; nofun, hfresh rfl⟩
    -- A get that joins or starts a fetch had no fresh keys.
    | joined promise forcedAt _ _ hold =>
        refine decides_other nofun (fun hasked => ?_) fun _ _ hasked => by cases hasked; rfl
        exact hold (Prod.mk.inj (Option.some.inj hasked)).1
    | started forcedAt _ _ _ hold =>
        refine decides_other nofun (fun hasked => ?_) fun _ _ hasked => by cases hasked; rfl
        exact hold (Prod.mk.inj (Option.some.inj hasked)).1
  · cases entry with
    | cached keys now => exact effects_pure _
    | joined promise now => exact hsettled promise
    | started promise had now =>
        refine effects_bind ?_ fun _ => hsettled promise
        refine effects_bind ?_ fun _ => effects_logged fun _ => nofun
        exact effects_bind (effects_act fun _ _ _ _ _ => nofun) fun _ => effects_pure _

/-- The key set is of a fetch within the longer interval, or the last attempt
    was within the shorter one. -/
def Fresh (h : History κ) (now : Int) : Prop :=
  (∃ t, lastSuccess h = some t ∧ now - t < cacheTtl) ∨
    ∃ t, lastStart h = some t ∧ now - t < refreshMinInterval

/-- The last attempt has failed or not ended, and is within the longer interval
    all the same. -/
def Trusted (h : History κ) (now : Int) : Prop :=
  succeeded h = false ∧ ∃ t, lastStart h = some t ∧ now - t < cacheTtl

/-- A get asks again ten minutes after the last attempt, and until then uses
    the keys it has. In every run a get that is not forced is answered from the
    cache exactly if there are keys and the last attempt, whatever has become
    of it, was started within ten minutes. So the keys are fresh, of a fetch
    within ten minutes or with an attempt within one, unless that attempt has
    failed or not ended. -/
theorem fresh_unless_trusted (κ : Type) (clock : Int)
    (p q : Pool (State κ) (FetchOutcome κ) (Event κ) Call fun _ => Except String κ)
    (hp : Reachable (jwksSystem κ) anyStep (State.start clock) p)
    (hstep : PoolStep (jwksSystem κ) anyStep p q) (call : Call) (x : Event κ) (now : Int)
    (hevent : q.trace = (call, x) :: p.trace) (hasked : x.asked = some (false, now)) :
    (x = .answered false now ↔ p.store.source.cached ≠ none ∧
      ∃ t, lastStart p.trace = some t ∧ now - t < cacheTtl) ∧
    (¬Trusted p.trace now → x = .answered false now → Fresh p.trace now) := by
  rcases inv_of_reachable hp with ⟨r, hi⟩
  have hdecides : x = .answered false now ↔
      p.store.source.cached ≠ none ∧ now - p.store.source.attemptedAt < cacheTtl := by
    have hbody : ∀ call : Call, Effects (decides (κ := κ)) ((jwksSystem κ).body call) :=
      fun call => decides_get call.forceRefresh
    rcases poolStep_effects (effects_of_reachable hbody hp) hstep with
      ⟨hsame, _⟩ | ⟨c, y, hlog, _, hR⟩
    · rw [hevent] at hsame
      exact absurd (congrArg List.length hsame) (by simp)
    · rw [hevent] at hlog
      cases hlog
      exact hR now hasked
  -- If there is a key set, there was a fetch.
  have hstart : p.store.source.cached ≠ none → ∃ t, lastStart p.trace = some t := by
    intro hcached
    have hparsed : (lastParsed p.trace).isSome = true := by
      rw [← hi.cached]
      exact Option.isSome_iff_ne_none.mpr hcached
    exact lastStart_of_starts_pos ((ends_pos_of_lastParsed hparsed).trans_le hi.counts.1)
  have hyoung : x = .answered false now ↔ p.store.source.cached ≠ none ∧
      ∃ t, lastStart p.trace = some t ∧ now - t < cacheTtl := by
    rw [hdecides]
    refine and_congr_right fun hcached => ?_
    rcases hstart hcached with ⟨t, ht⟩
    rw [hi.attempted t ht]
    refine ⟨fun h => ⟨t, ht, h⟩, fun ⟨t', ht', h⟩ => ?_⟩
    rw [ht] at ht'
    cases ht'
    exact h
  refine ⟨hyoung, fun hno hanswered => ?_⟩
  rcases (hyoung.mp hanswered).2 with ⟨t, ht, hlt⟩
  have hsucceeded : succeeded p.trace = true := by
    by_contra hfailed
    exact hno ⟨Bool.eq_false_iff.mpr hfailed, t, ht, hlt⟩
  exact .inl ⟨t, (lastSuccess_of_succeeded hsucceeded).trans ht, hlt⟩

end Runs

section Example

abbrev Moves : Type := List (Move (FetchOutcome String) Call Change)

/-- A get that fetches. The first and the last answer are not used. -/
def fetching (index : Nat) (outcome : FetchOutcome String) : Moves :=
  [.spawn ⟨false⟩, .run index .malformed, .run index outcome, .run index .malformed,
    .run index .malformed]

/-- The keys are fetched, and ten seconds later they are used. -/
def usedSoon : Moves :=
  fetching 0 (.parsed "keys") ++ [.env (.tick 10), .spawn ⟨false⟩]

/-- The keys are fetched, the next fetch fails after ten minutes, and another
    hundred seconds pass. -/
def refreshFails : Moves :=
  fetching 0 (.parsed "keys") ++ [.env (.tick 600)] ++ fetching 1 (.status 503) ++
    [.env (.tick 100), .spawn ⟨false⟩]

theorem soon_is_fresh :
    ∃ p q : Pool (State String) (FetchOutcome String) (Event String) Call
        fun _ => Except String String,
      Reachable (jwksSystem String) anyStep (State.start 1000) p ∧
      q.trace = (⟨false⟩, .answered false 1010) :: p.trace ∧ Fresh p.trace 1010 := by
  rcases poolStep_of_play_any (jwksSystem String) anyStep (State.start 1000) usedSoon
    (.run 1 .malformed)
    (fun p q => decide (q.trace = (⟨false⟩, .answered false 1010) :: p.trace ∧
      succeeded p.trace = true))
    (by decide +kernel) with ⟨p, q, hp, hstep, htest⟩
  rcases of_decide_eq_true htest with ⟨hevent, hsucceeded⟩
  have hfresh := (fresh_unless_trusted String 1000 p q hp hstep ⟨false⟩ (.answered false 1010) 1010
    hevent rfl).2
  refine ⟨p, q, hp, hevent, hfresh (fun ⟨hfailed, _⟩ => ?_) rfl⟩
  rw [hsucceeded] at hfailed
  cases hfailed

/-- A refresh that has failed is not repeated when a minute has passed. -/
theorem failed_refresh_is_trusted :
    ∃ p q : Pool (State String) (FetchOutcome String) (Event String) Call
        fun _ => Except String String,
      Reachable (jwksSystem String) anyStep (State.start 1000) p ∧
      PoolStep (jwksSystem String) anyStep p q ∧
      q.trace = (⟨false⟩, .answered false 1700) :: p.trace ∧ ¬Fresh p.trace 1700 := by
  rcases poolStep_of_play_any (jwksSystem String) anyStep (State.start 1000) refreshFails
    (.run 2 .malformed)
    (fun p q => decide (q.trace = (⟨false⟩, .answered false 1700) :: p.trace ∧
      lastStart p.trace = some 1600 ∧ lastSuccess p.trace = some 1000))
    (by decide +kernel) with ⟨p, q, hp, hstep, htest⟩
  rcases of_decide_eq_true htest with ⟨hevent, hstart, hsuccess⟩
  refine ⟨p, q, hp, hstep, hevent, ?_⟩
  rintro (⟨t, ht, hyoung⟩ | ⟨t, ht, hyoung⟩)
  · cases hsuccess.symm.trans ht
    exact absurd hyoung (by decide)
  · cases hstart.symm.trans ht
    exact absurd hyoung (by decide)

end Example

end Sandbox.Jwks
