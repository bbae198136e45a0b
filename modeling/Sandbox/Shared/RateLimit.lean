import Sandbox.Shared.Text
import Sandbox.Stores.Memory

/-!
# Rate Limits

A limiter counts the requests of a subject in windows of the wall clock. The
number of the window is part of the key of the counter, but the counter also
has a time to live, which begins with the first request and not with the
window. It is as long as a window, so a counter ends when its window is over or
later. What is left of it then is of no harm, since the next window counts at
another key.

`Counted` says this of the store: the counter of a window is there if the window
has had a request, holds their number, and does not end before the window does.
So every answer is decided by the number of requests before it in the same
window (`decisions`), and neither sweeping nor other subjects can change it.

The name of a limiter stands for its options, as every name is used once.

## Main definitions

* `RateLimitOptions`: The limit and the length of a window.
* `rateLimit`: The middleware, up to the handlers behind it.
* `serve`: The answers to a sequence of requests.
* `decisions`: The same answers from the numbers of earlier requests.

## Theorems

* `counterKey_inj`: Counters of different subjects or windows do not meet.
* `counted_rateLimit`: A request is counted and answered by the count.
* `serve_eq_decisions`: The counters decide as the numbers of requests do.
* `passed_add_min`: A window lets through its first requests.
* `rateLimit_exact`: The limit is exact, in each window and for each subject.
-/

namespace Sandbox

open Stores Ttl

section Source

structure RateLimitOptions where
  limit : Nat
  windowSeconds : Nat
  positive : 0 < windowSeconds

/-- What the middleware does with a request. -/
inductive Limited where
  | next
  /-- 429 with the value of `Retry-After`. -/
  | tooManyRequests (retryAfter : String)
  deriving DecidableEq

/-- `clock.nowSeconds()` at a `Date.now()`. -/
def clockSeconds (nowMs : Nat) : Int := (nowMs / 1000 : Nat)

/-- `Math.floor(Date.now() / 1000 / options.windowSeconds)` -/
def RateLimitOptions.windowAt (options : RateLimitOptions) (nowMs : Nat) : Nat :=
  nowMs / 1000 / options.windowSeconds

def counterKey (name subject : String) (window : Nat) : String :=
  name ++ ":" ++ subject ++ ":" ++ toString window

def rateLimit (name : String) (options : RateLimitOptions) (store : MemoryCounterStore)
    (subject : String) (nowMs : Nat) : Limited × MemoryCounterStore :=
  let (count, store) := store.increment (clockSeconds nowMs)
    (counterKey name subject (options.windowAt nowMs)) options.windowSeconds
  if count > options.limit then (.tooManyRequests (toString options.windowSeconds), store)
  else (.next, store)

end Source

/-- A request of a subject that reaches a limiter. -/
structure Request where
  name : String
  subject : String
  nowMs : Nat

section Requests

variable (limiters : String → RateLimitOptions)

/-- The answers to requests, in their order. -/
def serve : MemoryCounterStore → List Request → List (Request × Limited)
  | _, [] => []
  | store, r :: rest =>
      let (answer, store) := rateLimit r.name (limiters r.name) store r.subject r.nowMs
      (r, answer) :: serve store rest

/-- A request of this subject to this limiter. -/
def Request.isOf (name subject : String) (r : Request) : Bool :=
  r.name == name && r.subject == subject

/-- A request of this subject to this limiter in this window. -/
def Request.isIn (name subject : String) (window : Nat) (r : Request) : Bool :=
  r.isOf name subject && (limiters name).windowAt r.nowMs == window

/-- The number of requests that share the window of a request. -/
def arrived (before : List Request) (r : Request) : Nat :=
  before.countP (Request.isIn limiters r.name r.subject ((limiters r.name).windowAt r.nowMs))

/-- The first requests of a window pass and the others do not. -/
def decision (before : List Request) (r : Request) : Limited :=
  if arrived limiters before r < (limiters r.name).limit then .next
  else .tooManyRequests (toString (limiters r.name).windowSeconds)

/-- The answers to requests that follow others. -/
def decisions : List Request → List Request → List (Request × Limited)
  | _, [] => []
  | before, r :: rest => (r, decision limiters before r) :: decisions (before ++ [r]) rest

end Requests

section Keys

theorem colon_notMem_toString (n : Nat) : ':' ∉ (toString n).toList := by
  intro h
  rw [Nat.toString_eq_repr, Nat.toList_repr] at h
  exact absurd (Nat.isDigit_of_mem_toDigits (by decide) (by decide) h) (by decide)

theorem toString_inj {m n : Nat} (h : toString m = toString n) : m = n := by
  have hdigits := congrArg (fun text => Nat.ofDigitChars 10 text.toList 0) h
  simp only [Nat.toString_eq_repr, Nat.toList_repr] at hdigits
  rwa [Nat.ofDigitChars_toDigits (by decide) (by decide),
    Nat.ofDigitChars_toDigits (by decide) (by decide)] at hdigits

/-- Counters of different limiters, subjects or windows do not meet. The name
    of a limiter may be any text. -/
theorem counterKey_inj {name name' subject subject' : String} {window window' : Nat}
    (h : ':' ∉ subject.toList) (h' : ':' ∉ subject'.toList)
    (heq : counterKey name subject window = counterKey name' subject' window') :
    name = name' ∧ subject = subject' ∧ window = window' := by
  have hlist := congrArg String.toList heq
  unfold counterKey at hlist
  have hcolon : ":".toList = [':'] := rfl
  simp only [String.toList_append, hcolon, List.append_assoc, List.singleton_append] at hlist
  rw [← List.append_assoc, ← List.append_assoc] at hlist
  -- The last colon ends the subject and the one before it ends the name.
  obtain ⟨hhead, hwindow⟩ := eq_of_append_cons_eq (colon_notMem_toString window)
    (colon_notMem_toString window') hlist
  obtain ⟨hname, hsubject⟩ := eq_of_append_cons_eq h h' hhead
  exact ⟨String.toList_inj.mp hname, String.toList_inj.mp hsubject,
    toString_inj (String.toList_inj.mp hwindow)⟩

end Keys

section Counting

variable {limiters : String → RateLimitOptions}

/-- The counter of a window after so many requests. -/
def CountedAt (options : RateLimitOptions) (window count : Nat) (entry : Option (Entry Nat)) :
    Prop :=
  if count = 0 then entry = none
  else ∃ expiresAt : Int, entry = some ⟨count, expiresAt⟩ ∧
    ((window + 1) * options.windowSeconds : Nat) ≤ expiresAt

/-- The store shows a counter for every window that has had a request. -/
def Counted (limiters : String → RateLimitOptions) (before : List Request) (now : Int)
    (store : MemoryCounterStore) : Prop :=
  ∃ map, ShowsEntries now store.counters map ∧
    ∀ name subject window, ':' ∉ subject.toList →
      CountedAt (limiters name) window (before.countP (Request.isIn limiters name subject window))
        (map (counterKey name subject window))

theorem counted_empty (now : Int) : Counted limiters [] now .empty := by
  refine ⟨Ttl.empty, fun _ _ _ => by rw [Option.bind_fun_some]; rfl, fun _ _ _ _ => ?_⟩
  unfold CountedAt
  rw [List.countP_nil, if_pos rfl]
  rfl

theorem Counted.mono {before : List Request} {now now' : Int} {store : MemoryCounterStore}
    (h : Counted limiters before now store) (hle : now ≤ now') :
    Counted limiters before now' store := by
  obtain ⟨map, hshows, hcount⟩ := h
  exact ⟨map, hshows.mono hle, hcount⟩

/-- A second lies before the end of its window. -/
theorem lt_window_end (options : RateLimitOptions) (nowMs : Nat) :
    nowMs / 1000 < (options.windowAt nowMs + 1) * options.windowSeconds := by
  unfold RateLimitOptions.windowAt
  rw [Nat.mul_comm]
  exact Nat.lt_mul_div_succ _ options.positive

/-- A counter that starts within a window does not end before the window. -/
theorem window_end_le (options : RateLimitOptions) (nowMs : Nat) :
    (options.windowAt nowMs + 1) * options.windowSeconds ≤
      nowMs / 1000 + options.windowSeconds := by
  unfold RateLimitOptions.windowAt
  have := Nat.div_mul_le_self (nowMs / 1000) options.windowSeconds
  rw [Nat.add_mul]
  omega

theorem isIn_self (r : Request) :
    r.isIn limiters r.name r.subject ((limiters r.name).windowAt r.nowMs) = true := by
  simp [Request.isIn, Request.isOf]

/-- Counting one request more. -/
theorem increment_counted {before : List Request} {r : Request} {map : Ttl.Map String Nat}
    (hsubject : ':' ∉ r.subject.toList)
    (hcount : ∀ name subject window, ':' ∉ subject.toList →
      CountedAt (limiters name) window (before.countP (Request.isIn limiters name subject window))
        (map (counterKey name subject window))) :
    let key := counterKey r.name r.subject ((limiters r.name).windowAt r.nowMs)
    let done := Ttl.increment map (clockSeconds r.nowMs) key (limiters r.name).windowSeconds
    done.1 = arrived limiters before r + 1 ∧
      ∀ name subject window, ':' ∉ subject.toList →
        CountedAt (limiters name) window
          ((before ++ [r]).countP (Request.isIn limiters name subject window))
          (done.2 (counterKey name subject window)) := by
  intro key done
  have hown : CountedAt (limiters r.name) ((limiters r.name).windowAt r.nowMs)
      (arrived limiters before r) (map key) := hcount _ _ _ hsubject
  have hlt := lt_window_end (limiters r.name) r.nowMs
  have hle := window_end_le (limiters r.name) r.nowMs
  -- The counter that is written and the answer.
  obtain ⟨expiresAt, hend, hanswer, hmap⟩ : ∃ expiresAt : Int,
      (((limiters r.name).windowAt r.nowMs + 1) * (limiters r.name).windowSeconds : Nat) ≤
        expiresAt ∧ done.1 = arrived limiters before r + 1 ∧
      done.2 = put map key ⟨arrived limiters before r + 1, expiresAt⟩ := by
    unfold CountedAt at hown
    by_cases hzero : arrived limiters before r = 0
    · rw [if_pos hzero] at hown
      have hlive : live map (clockSeconds r.nowMs) key = none := by
        rw [live, hown]
      refine ⟨clockSeconds r.nowMs + (limiters r.name).windowSeconds, ?_, ?_, ?_⟩
      · unfold clockSeconds
        omega
      · simp only [done, Ttl.increment, hlive, hzero, Nat.zero_add]
      · simp only [done, Ttl.increment, hlive, hzero, Nat.zero_add]
        rfl
    · rw [if_neg hzero] at hown
      obtain ⟨expiresAt, hentry, hend⟩ := hown
      have hlive : live map (clockSeconds r.nowMs) key =
          some ⟨arrived limiters before r, expiresAt⟩ := by
        refine live_eq_some.mpr ⟨hentry, ?_⟩
        dsimp only [clockSeconds]
        omega
      refine ⟨expiresAt, hend, ?_, ?_⟩
      · simp only [done, Ttl.increment, hlive]
      · simp only [done, Ttl.increment, hlive]
  refine ⟨hanswer, fun name subject window hplain => ?_⟩
  rw [hmap, List.countP_append, List.countP_singleton]
  by_cases hsame : r.isIn limiters name subject window = true
  · -- The request belongs to this window, so the counter is the one written.
    simp only [Request.isIn, Request.isOf, Bool.and_eq_true, beq_iff_eq] at hsame
    obtain ⟨⟨hname, hsub⟩, hwindow⟩ := hsame
    subst hname hsub hwindow
    rw [isIn_self, if_pos rfl, CountedAt, if_neg (by omega)]
    exact ⟨expiresAt, put_self map key _, hend⟩
  · rw [if_neg hsame, Nat.add_zero, put_of_ne map _ ?_]
    · exact hcount name subject window hplain
    · intro hkey
      obtain ⟨hname, hsub, hwindow⟩ := counterKey_inj hplain hsubject hkey
      subst hname hsub hwindow
      exact hsame (isIn_self r)

/-- A request is counted, and answered by the number of requests before it. -/
theorem counted_rateLimit {before : List Request} {r : Request} {store : MemoryCounterStore}
    (h : Counted limiters before (clockSeconds r.nowMs) store) (hsubject : ':' ∉ r.subject.toList) :
    (rateLimit r.name (limiters r.name) store r.subject r.nowMs).1 = decision limiters before r ∧
      Counted limiters (before ++ [r]) (clockSeconds r.nowMs)
        (rateLimit r.name (limiters r.name) store r.subject r.nowMs).2 := by
  obtain ⟨map, hshows, hcount⟩ := h
  obtain ⟨hreply, hnext⟩ := MemoryCounterStore.apply_onMap (α := Unit) hshows
    (.increment (counterKey r.name r.subject ((limiters r.name).windowAt r.nowMs))
      (limiters r.name).windowSeconds)
  obtain ⟨hanswer, hcount'⟩ := increment_counted hsubject hcount
  simp only [MemoryCounterStore.apply, CounterOp.onMap, Reply.count.injEq] at hreply hnext
  rw [hanswer] at hreply
  unfold rateLimit decision
  dsimp only
  rw [Int.natCast_inj.mp hreply]
  -- The answer counts this request, too, so it is refused only above the limit.
  by_cases hlimit : arrived limiters before r < (limiters r.name).limit
  · rw [if_neg (by omega), if_pos hlimit]
    exact ⟨rfl, _, hnext, hcount'⟩
  · rw [if_pos (by omega), if_neg hlimit]
    exact ⟨rfl, _, hnext, hcount'⟩

/-- The counters decide as the numbers of requests do. -/
theorem serve_eq_decisions {requests : List Request} :
    ∀ {before : List Request} {store : MemoryCounterStore} {now : Int},
      Counted limiters before now store → (∀ r ∈ requests, now ≤ clockSeconds r.nowMs) →
      requests.Pairwise (fun r r' => r.nowMs ≤ r'.nowMs) →
      (∀ r ∈ requests, ':' ∉ r.subject.toList) →
      serve limiters store requests = decisions limiters before requests := by
  induction requests with
  | nil => intros; rfl
  | cons r rest ih =>
      intro before store now h hnow hsorted hplain
      obtain ⟨hlater, hrest⟩ := List.pairwise_cons.mp hsorted
      -- The store still counts what arrived before, and then counts this request as well.
      obtain ⟨hanswer, hnext⟩ := counted_rateLimit (h.mono (hnow r List.mem_cons_self))
        (hplain r List.mem_cons_self)
      have hserve : serve limiters store (r :: rest) =
          (r, (rateLimit r.name (limiters r.name) store r.subject r.nowMs).1) ::
            serve limiters (rateLimit r.name (limiters r.name) store r.subject r.nowMs).2 rest :=
              rfl
      rw [hserve, decisions, hanswer,
        ih hnext ?_ hrest fun x hx => hplain x (List.mem_cons_of_mem _ hx)]
      intro x hx
      have := hlater x hx
      unfold clockSeconds
      omega

end Counting

section Exactness

variable {limiters : String → RateLimitOptions}

theorem decisions_append (before first rest : List Request) :
    decisions limiters before (first ++ rest) =
      decisions limiters before first ++ decisions limiters (before ++ first) rest := by
  induction first generalizing before with
  | nil => rw [List.append_nil]; rfl
  | cons r first ih =>
      rw [List.cons_append, decisions, ih, List.append_assoc, List.singleton_append]
      rfl

theorem length_decisions (before requests : List Request) :
    (decisions limiters before requests).length = requests.length := by
  induction requests generalizing before with
  | nil => rfl
  | cons r rest ih => rw [decisions, List.length_cons, ih, List.length_cons]

/-- Requests of others do not change what is counted. -/
theorem arrived_filter {name subject : String} {before : List Request} {r : Request}
    (h : r.isOf name subject = true) :
    arrived limiters (before.filter (Request.isOf name subject)) r = arrived limiters before r := by
  simp only [Request.isOf, Bool.and_eq_true, beq_iff_eq] at h
  obtain ⟨rfl, rfl⟩ := h
  unfold arrived
  rw [List.countP_filter]
  congr 1
  funext x
  simp only [Request.isIn]
  cases x.isOf r.name r.subject <;> simp

/-- The answers to one subject are those it gets alone. -/
theorem decisions_filter (name subject : String) (before requests : List Request) :
    (decisions limiters before requests).filter (fun d => d.1.isOf name subject) =
      decisions limiters (before.filter (Request.isOf name subject))
        (requests.filter (Request.isOf name subject)) := by
  induction requests generalizing before with
  | nil => rfl
  | cons r rest ih =>
      rw [decisions]
      let own : Request × Limited → Bool := fun d => d.1.isOf name subject
      -- A request of another subject leaves no trace in the filtered past.
      by_cases h : r.isOf name subject = true
      · have hd : own (r, decision limiters before r) = true := h
        rw [List.filter_cons_of_pos hd, ih, List.filter_append, List.filter_cons_of_pos h,
          List.filter_nil, List.filter_cons_of_pos h, decisions, decision, decision,
          arrived_filter h]
      · have hd : ¬own (r, decision limiters before r) = true := h
        rw [List.filter_cons_of_neg hd, ih, List.filter_append, List.filter_cons_of_neg h,
          List.filter_nil, List.append_nil, List.filter_cons_of_neg h]

/-- A request of this subject that passed in this window. -/
def passedIn (limiters : String → RateLimitOptions) (name subject : String) (window : Nat)
    (d : Request × Limited) : Bool :=
  d.1.isIn limiters name subject window && d.2 == .next

/-- A window lets through its first requests and no more. -/
theorem passed_add_min (limiters : String → RateLimitOptions) (name subject : String) (window : Nat)
    (before requests : List Request) :
    (decisions limiters before requests).countP (passedIn limiters name subject window) +
        min (limiters name).limit (before.countP (Request.isIn limiters name subject window)) =
      min (limiters name).limit
        ((before ++ requests).countP (Request.isIn limiters name subject window)) := by
  induction requests generalizing before with
  | nil => rw [List.append_nil, decisions, List.countP_nil, Nat.zero_add]
  | cons r rest ih =>
      have hrest := ih (before ++ [r])
      rw [List.append_assoc, List.singleton_append] at hrest
      rw [← hrest, decisions, List.countP_cons, List.countP_append, List.countP_singleton]
      by_cases hin : r.isIn limiters name subject window = true
      · have hin' := hin
        simp only [Request.isIn, Request.isOf, Bool.and_eq_true, beq_iff_eq] at hin'
        obtain ⟨⟨rfl, rfl⟩, rfl⟩ := hin'
        rw [if_pos hin]
        -- The request passes just when the limit has not been reached.
        by_cases hlimit : arrived limiters before r < (limiters r.name).limit
        · have hpass : passedIn limiters r.name r.subject ((limiters r.name).windowAt r.nowMs)
              (r, decision limiters before r) = true := by
            rw [passedIn, hin, decision, if_pos hlimit]
            rfl
          rw [if_pos hpass]
          unfold arrived at hlimit
          omega
        · have hrefuse : ¬passedIn limiters r.name r.subject ((limiters r.name).windowAt r.nowMs)
              (r, decision limiters before r) = true := by
            rw [passedIn, hin, decision, if_neg hlimit]
            exact Bool.false_ne_true
          rw [if_neg hrefuse]
          unfold arrived at hlimit
          omega
      · have hother : ¬passedIn limiters name subject window (r, decision limiters before r) =
            true := by
          intro hpass
          exact hin (Bool.and_eq_true_iff.mp hpass).1
        rw [if_neg hin, if_neg hother]
        omega

/-- A request of this subject that passed between these times. -/
def passedBetween (name subject : String) (first last : Nat) (d : Request × Limited) : Bool :=
  d.1.isOf name subject && d.2 == .next && decide (first ≤ d.1.nowMs) && decide (d.1.nowMs ≤ last)

theorem passedIn_le (limiters : String → RateLimitOptions) (name subject : String) (window : Nat)
    (requests : List Request) :
    (decisions limiters [] requests).countP (passedIn limiters name subject window) ≤
      (limiters name).limit := by
  have h := passed_add_min limiters name subject window [] requests
  omega

/-- An interval shorter than a window meets two windows at most. -/
theorem windowAt_between (options : RateLimitOptions) {first last nowMs : Nat}
    (hshort : last < first + options.windowSeconds * 1000) (hfirst : first ≤ nowMs)
    (hlast : nowMs ≤ last) :
    options.windowAt nowMs = options.windowAt first ∨
      options.windowAt nowMs = options.windowAt first + 1 := by
  have hlow : options.windowAt first ≤ options.windowAt nowMs :=
    Nat.div_le_div_right (Nat.div_le_div_right hfirst)
  have hhigh : options.windowAt nowMs ≤ options.windowAt (first + options.windowSeconds * 1000) :=
    Nat.div_le_div_right (Nat.div_le_div_right (by omega))
  have hnext : options.windowAt (first + options.windowSeconds * 1000) =
      options.windowAt first + 1 := by
    unfold RateLimitOptions.windowAt
    rw [Nat.add_mul_div_right _ _ (by omega), Nat.add_div_right _ options.positive]
  omega

/-- Two windows let through twice the limit. -/
theorem passedBetween_le (name subject : String) {first last : Nat}
    (hshort : last < first + (limiters name).windowSeconds * 1000) (requests : List Request) :
    (decisions limiters [] requests).countP (passedBetween name subject first last) ≤
      2 * (limiters name).limit := by
  generalize hwindow : (limiters name).windowAt first = window
  -- A span shorter than the window meets at most two windows.
  have hcover : (decisions limiters [] requests).countP (passedBetween name subject first last) ≤
      (decisions limiters [] requests).countP (passedIn limiters name subject window) +
        (decisions limiters [] requests).countP (passedIn limiters name subject (window + 1)) := by
    generalize decisions limiters [] requests = log
    induction log with
    | nil => exact Nat.le_refl _
    | cons d log ih =>
        rw [List.countP_cons, List.countP_cons, List.countP_cons]
        by_cases hd : passedBetween name subject first last d = true
        · simp only [passedBetween, Bool.and_eq_true, decide_eq_true_eq] at hd
          obtain ⟨⟨⟨hof, hnext⟩, hfirst⟩, hlast⟩ := hd
          have hone : ∀ v, (limiters name).windowAt d.1.nowMs = v →
              passedIn limiters name subject v d = true := by
            rintro v rfl
            rw [passedIn, Request.isIn, hof, hnext, beq_self_eq_true]
            rfl
          rcases windowAt_between (limiters name) hshort hfirst hlast with h | h
          · rw [if_pos (hone window (h.trans hwindow))]
            split <;> split <;> omega
          · rw [if_pos (hone (window + 1) (by rw [h, hwindow]))]
            split <;> split <;> omega
        · rw [if_neg hd]
          omega
  have h := passedIn_le limiters name subject window requests
  have h' := passedIn_le limiters name subject (window + 1) requests
  omega

/-- In every window the first requests of a subject pass, as many as the limit,
    and all others are refused. An interval shorter than a window lets through
    at most twice as many. A subject is answered as if it were alone. -/
theorem rateLimit_exact (limiters : String → RateLimitOptions) (requests : List Request)
    (hsorted : requests.Pairwise (fun r r' => r.nowMs ≤ r'.nowMs))
    (hplain : ∀ r ∈ requests, ':' ∉ r.subject.toList) :
    (∀ before r after, requests = before ++ r :: after →
      (serve limiters .empty requests)[before.length]? =
        some (r, if before.countP (Request.isIn limiters r.name r.subject
            ((limiters r.name).windowAt r.nowMs)) < (limiters r.name).limit then .next
          else .tooManyRequests (toString (limiters r.name).windowSeconds))) ∧
    (∀ name subject first last, last < first + (limiters name).windowSeconds * 1000 →
      (serve limiters .empty requests).countP (passedBetween name subject first last) ≤
        2 * (limiters name).limit) ∧
    ∀ name subject,
      (serve limiters .empty requests).filter (fun d => d.1.isOf name subject) =
        serve limiters .empty (requests.filter (Request.isOf name subject)) := by
  -- What the counters decide is what counting the requests decides.
  have hstart : ∀ rs : List Request, rs.Pairwise (fun r r' => r.nowMs ≤ r'.nowMs) →
      (∀ r ∈ rs, ':' ∉ r.subject.toList) →
      serve limiters .empty rs = decisions limiters [] rs := by
    intro rs hs hp
    refine serve_eq_decisions (counted_empty 0) (fun r _ => ?_) hs hp
    exact Int.natCast_nonneg _
  rw [hstart requests hsorted hplain]
  refine ⟨?_, fun name subject first last hshort => passedBetween_le name subject hshort requests,
    fun name subject => ?_⟩
  · rintro before r after rfl
    rw [decisions_append,
      List.getElem?_append_right (Nat.le_of_eq (length_decisions _ _)), length_decisions,
      Nat.sub_self]
    rfl
  · rw [decisions_filter, hstart _ (hsorted.filter _)]
    · rfl
    · intro r hr
      exact hplain r (List.mem_of_mem_filter hr)

theorem rateLimit_second_refused :
    (serve (fun _ => ⟨1, 60, by omega⟩) .empty
      [⟨"login", "a", 0⟩, ⟨"login", "a", 59999⟩, ⟨"login", "b", 59999⟩,
        ⟨"login", "a", 60000⟩])[1]? =
      some (⟨"login", "a", 59999⟩, .tooManyRequests "60") := by
  have h := (rateLimit_exact (fun _ => ⟨1, 60, by omega⟩)
    [⟨"login", "a", 0⟩, ⟨"login", "a", 59999⟩, ⟨"login", "b", 59999⟩, ⟨"login", "a", 60000⟩]
    (by simp) (by decide)).1 [⟨"login", "a", 0⟩] ⟨"login", "a", 59999⟩ _ rfl
  rw [if_neg (by decide)] at h
  exact h

end Exactness

end Sandbox
