import Cortrix.Lib.Parties
import Cortrix.Lib.Run

/-!
# The circuit breaker of the reranker

`CircuitBreaker`: the methods as they run alone, and any number of callers interleaved between their accesses to the
atomics.

* `failuresSince` : the failures recorded since the last success; `Follows` : what the breaker is after calls that do
  not overlap (`follows_run`), and `allowRequest_spec` : when it admits a request then;
* `Pc`, `Sys` : the callers; `solo_allow`, `solo_success`, `solo_failure` : a caller that is not disturbed does what the
  method does;
* `Apart` : no `RecordSuccess` clears the opening time while a `TripOpen` sets it; `never_stuck` : then a breaker that
  refuses admits a request once its cooldown is over; `refuses_for_good`, `stuck_open` : otherwise it may never again.
-/

namespace Cortrix.Reranker
open Lib

inductive CircuitBreakerState
  | kClosed
  | kOpen
  | kHalfOpen
  deriving DecidableEq

structure CircuitBreaker where
  threshold : Nat
  cooldownSec : Nat
  state : CircuitBreakerState := .kClosed
  failureCount : Nat := 0
  openSinceMs : Int := -1
  threshold_pos : 0 < threshold
  cooldown_pos : 0 < cooldownSec

namespace CircuitBreaker

def create (threshold cooldownSec : Int) : CircuitBreaker where
  threshold := if 0 < threshold then threshold.toNat else 1
  cooldownSec := if 0 < cooldownSec then cooldownSec.toNat else 1
  threshold_pos := by split <;> omega
  cooldown_pos := by split <;> omega

variable (b : CircuitBreaker)

def setState (state : CircuitBreakerState) : CircuitBreaker := { b with state }

def setCount (failureCount : Nat) : CircuitBreaker := { b with failureCount }

def setSince (openSinceMs : Int) : CircuitBreaker := { b with openSinceMs }

def cooldownMs : Nat := b.cooldownSec * 1000

section
variable (state : CircuitBreakerState) (n : Nat) (ms : Int)

@[simp] theorem setState_state : (b.setState state).state = state := rfl
@[simp] theorem setState_cooldownMs : (b.setState state).cooldownMs = b.cooldownMs := rfl
@[simp] theorem setCount_failureCount : (b.setCount n).failureCount = n := rfl
@[simp] theorem setSince_openSinceMs : (b.setSince ms).openSinceMs = ms := rfl

end

/-! ## The methods -/

/-- The opening time is known, and the cooldown is over. -/
def cooledDown (now : Nat) (opened : Int) : Bool := decide (0 ≤ opened) && decide ((b.cooldownMs : Int) ≤ now - opened)

theorem cooledDown_iff {now : Nat} {opened : Int} :
    b.cooledDown now opened = true ↔ 0 ≤ opened ∧ (b.cooldownMs : Int) ≤ now - opened := by
  simp [cooledDown]

def allowRequest (now : Nat) : Bool × CircuitBreaker :=
  match b.state with
  | .kClosed => (true, b)
  | .kHalfOpen => (true, b)
  | .kOpen => if b.cooledDown now b.openSinceMs then (true, b.setState .kHalfOpen) else (false, b)

theorem allowRequest_admits {now : Nat} (h : b.state = .kOpen → b.cooledDown now b.openSinceMs = true) :
    (b.allowRequest now).1 = true := by
  unfold allowRequest
  cases hs : b.state with
  | kClosed | kHalfOpen => rfl
  | kOpen =>
    rw [if_pos (h hs)]

def recordSuccess : CircuitBreaker := ((b.setState .kClosed).setCount 0).setSince (-1)

def tripOpen (now : Nat) : CircuitBreaker := (b.setSince now).setState .kOpen

def recordFailure (now : Nat) : CircuitBreaker :=
  match b.state with
  | .kHalfOpen => b.tripOpen now
  | .kOpen => b
  | .kClosed =>
    let b' := b.setCount (b.failureCount + 1)
    if b.threshold ≤ b.failureCount + 1 then b'.tripOpen now else b'

end CircuitBreaker

/-! ## Calls that do not overlap -/

inductive Method
  | allowRequest
  | recordSuccess
  | recordFailure

structure Timed where
  now : Nat
  method : Method

def CircuitBreaker.call (b : CircuitBreaker) (c : Timed) : CircuitBreaker :=
  match c.method with
  | .allowRequest => (b.allowRequest c.now).2
  | .recordSuccess => b.recordSuccess
  | .recordFailure => b.recordFailure c.now

/-- The times of the failures recorded since the last success. -/
def failuresSince (calls : List Timed) : List Nat :=
  calls.foldl (fun ts c =>
    match c.method with
    | .allowRequest => ts
    | .recordSuccess => []
    | .recordFailure => ts ++ [c.now]) []

theorem failuresSince_concat (calls : List Timed) (c : Timed) :
    failuresSince (calls ++ [c]) =
      match c.method with
      | .allowRequest => failuresSince calls
      | .recordSuccess => []
      | .recordFailure => failuresSince calls ++ [c.now] := by
  unfold failuresSince
  rw [List.foldl_append]
  rfl

/-- What the breaker is at `now`, after the failures `ts` since the last success. -/
structure Follows (b : CircuitBreaker) (ts : List Nat) (now : Nat) : Prop where
  past : ∀ t ∈ ts, t ≤ now
  closed_iff : b.state = .kClosed ↔ ts.length < b.threshold
  count : b.state = .kClosed → b.failureCount = ts.length
  since : b.state ≠ .kClosed → ∃ t ∈ ts, b.openSinceMs = (t : Int)
  /-- the failure that reached the threshold opens the breaker for a cooldown -/
  trip : ∀ t, ts[b.threshold - 1]? = some t → now < t + b.cooldownMs → b.state = .kOpen ∧ b.openSinceMs = (t : Int)

section Calls
variable {b : CircuitBreaker} {ts : List Nat} {now : Nat}

theorem Follows.later (h : Follows b ts now) {now' : Nat} (hle : now ≤ now') : Follows b ts now' where
  past t ht := (h.past t ht).trans hle
  closed_iff := h.closed_iff
  count := h.count
  since := h.since
  trip t ht hlt := h.trip t ht (by omega)

theorem Follows.allowRequest (h : Follows b ts now) : Follows (b.allowRequest now).2 ts now := by
  unfold CircuitBreaker.allowRequest
  cases hs : b.state with
  | kClosed | kHalfOpen => exact h
  | kOpen =>
    dsimp only
    have hopen : b.state ≠ .kClosed := by simp [hs]
    split
    · rename_i hcool
      refine ⟨h.past, ?_, fun hc => (by cases hc), fun _ => h.since hopen, fun t ht hlt => ?_⟩
      · exact iff_of_false (by simp) (mt h.closed_iff.mpr hopen)
      · -- the cooldown of the failure that opened the breaker is not over yet
        have hsince := (h.trip t ht hlt).2
        rw [hsince, b.cooledDown_iff] at hcool
        simp only [CircuitBreaker.setState_cooldownMs] at hlt
        omega
    · exact h

theorem Follows.recordSuccess (b : CircuitBreaker) (now : Nat) : Follows b.recordSuccess [] now where
  past t ht := by cases ht
  closed_iff := iff_of_true rfl b.threshold_pos
  count _ := rfl
  since hc := absurd rfl hc
  trip t ht := by cases ht

theorem Follows.recordFailure (h : Follows b ts now) : Follows (b.recordFailure now) (ts ++ [now]) now := by
  have hpast : ∀ t ∈ ts ++ [now], t ≤ now := by
    intro t ht
    rcases List.mem_append.mp ht with ht | ht
    · exact h.past t ht
    · exact (List.mem_singleton.mp ht).le
  have hpos := b.threshold_pos
  have hsnoc : (ts ++ [now]).length = ts.length + 1 := List.length_append
  -- the failure that reached the threshold stays the same
  have hold : b.state ≠ .kClosed → (ts ++ [now])[b.threshold - 1]? = ts[b.threshold - 1]? := by
    intro hopen
    have hlen := mt h.closed_iff.mpr hopen
    exact List.getElem?_append_left (by omega)
  have hnot : b.state ≠ .kClosed → ¬ (ts ++ [now]).length < b.threshold := by
    intro hopen
    have hlen := mt h.closed_iff.mpr hopen
    omega
  unfold CircuitBreaker.recordFailure
  cases hs : b.state with
  | kHalfOpen =>
    have hopen : b.state ≠ .kClosed := by simp [hs]
    refine ⟨hpast, iff_of_false (by simp [CircuitBreaker.tripOpen]) (hnot hopen), fun hc => (by cases hc), fun _ => ?_,
      fun t ht hlt => ?_⟩
    · exact ⟨now, by simp, rfl⟩
    · rw [show (b.tripOpen now).threshold = b.threshold from rfl, hold hopen] at ht
      have htrip := (h.trip t ht hlt).1
      rw [hs] at htrip
      cases htrip
  | kOpen =>
    have hopen : b.state ≠ .kClosed := by simp [hs]
    refine ⟨hpast, iff_of_false hopen (hnot hopen), fun hc => absurd hc hopen, fun _ => ?_, fun t ht hlt => ?_⟩
    · obtain ⟨t, ht, hsince⟩ := h.since hopen
      exact ⟨t, List.mem_append_left _ ht, hsince⟩
    · rw [hold hopen] at ht
      exact h.trip t ht hlt
  | kClosed =>
    have hlen := h.closed_iff.mp hs
    have hcount := h.count hs
    dsimp only
    split
    · rename_i htrip
      refine ⟨hpast, iff_of_false (by simp [CircuitBreaker.tripOpen]) ?_, fun hc => (by cases hc), fun _ => ?_,
        fun t ht _ => ?_⟩
      · show ¬ (ts ++ [now]).length < b.threshold
        omega
      · exact ⟨now, by simp, rfl⟩
      · have hidx : (ts ++ [now])[b.threshold - 1]? = some t := ht
        rw [show b.threshold - 1 = ts.length by omega, List.getElem?_concat_length] at hidx
        cases hidx
        exact ⟨rfl, rfl⟩
    · rename_i hbelow
      refine ⟨hpast, iff_of_true hs ?_, fun _ => ?_, fun hc => absurd hs hc, fun t ht _ => ?_⟩
      · show (ts ++ [now]).length < b.threshold
        omega
      · rw [CircuitBreaker.setCount_failureCount, hcount, hsnoc]
      · have hidx : (ts ++ [now])[b.threshold - 1]? = some t := ht
        rw [List.getElem?_eq_none (by omega)] at hidx
        cases hidx

theorem follows_run {calls : List Timed} (hopen : b.state = .kClosed) (hcount : b.failureCount = 0)
    (hmono : calls.Pairwise fun c c' => c.now ≤ c'.now) (hpast : ∀ c ∈ calls, c.now ≤ now) :
    Follows (calls.foldl CircuitBreaker.call b) (failuresSince calls) now := by
  induction calls using List.reverseRecOn generalizing now with
  | nil =>
    refine ⟨fun t ht => (by cases ht), iff_of_true hopen b.threshold_pos, fun _ => hcount, fun hc => absurd hopen hc, ?_⟩
    intro t ht
    cases ht
  | append_singleton calls c ih =>
    obtain ⟨hmono, -, hlast⟩ := List.pairwise_append.mp hmono
    have hbefore : Follows (calls.foldl CircuitBreaker.call b) (failuresSince calls) c.now :=
      ih hmono fun c' hc' => hlast c' hc' c (List.mem_singleton_self c)
    rw [List.foldl_append, failuresSince_concat]
    refine Follows.later ?_ (hpast c (by simp))
    show Follows ((calls.foldl CircuitBreaker.call b).call c) _ c.now
    unfold CircuitBreaker.call
    cases c.method with
    | allowRequest => exact hbefore.allowRequest
    | recordSuccess => exact Follows.recordSuccess _ _
    | recordFailure => exact hbefore.recordFailure

end Calls

/-- Calls that do not overlap, at times that never go back: a request is admitted while fewer failures than the threshold
were recorded since the last success, and when the cooldown of each of them is over; it is refused for a cooldown after
the failure that reached the threshold. -/
theorem allowRequest_spec (threshold cooldownSec : Int) {calls : List Timed} {now : Nat}
    (hmono : calls.Pairwise fun c c' => c.now ≤ c'.now) (hpast : ∀ c ∈ calls, c.now ≤ now) :
    let b := calls.foldl CircuitBreaker.call (CircuitBreaker.create threshold cooldownSec)
    ((failuresSince calls).length < b.threshold → (b.allowRequest now).1 = true) ∧
      ((∀ t ∈ failuresSince calls, t + b.cooldownMs ≤ now) → (b.allowRequest now).1 = true) ∧
      ∀ t, (failuresSince calls)[b.threshold - 1]? = some t → now < t + b.cooldownMs → (b.allowRequest now).1 = false := by
  intro b
  have h : Follows b (failuresSince calls) now := follows_run rfl rfl hmono hpast
  refine ⟨fun hlen => ?_, fun hover => ?_, fun t ht hlt => ?_⟩
  · apply b.allowRequest_admits
    intro hs
    exact absurd (h.closed_iff.mpr hlen) (by rw [hs]; decide)
  · apply b.allowRequest_admits
    intro hs
    obtain ⟨t, ht, hsince⟩ := h.since (by rw [hs]; decide)
    have := hover t ht
    rw [b.cooledDown_iff, hsince]
    omega
  · obtain ⟨hs, hsince⟩ := h.trip t ht hlt
    have hcool : b.cooledDown now b.openSinceMs = false := by
      rw [← Bool.not_eq_true, b.cooledDown_iff, hsince]
      omega
    unfold CircuitBreaker.allowRequest
    rw [hs]
    rw [hcool, if_neg Bool.false_ne_true]

/-- Two failures in a row at a threshold of two: refused for a second, then admitted. -/
theorem allowRequest_spec_pair :
    let b := [⟨0, .recordFailure⟩, ⟨10, .recordFailure⟩].foldl CircuitBreaker.call (CircuitBreaker.create 2 1)
    (b.allowRequest 1009).1 = false ∧ (b.allowRequest 1010).1 = true := by
  have hmono : [Timed.mk 0 .recordFailure, ⟨10, .recordFailure⟩].Pairwise fun c c' => c.now ≤ c'.now := by simp
  refine ⟨(@allowRequest_spec 2 1 _ 1009 hmono (by simp)).2.2 10 rfl (by decide), ?_⟩
  exact (@allowRequest_spec 2 1 _ 1010 hmono (by simp)).2.1 (by decide)

/-! ## Callers that overlap -/

/-- Where a caller stands between its accesses to the atomics and the clock. -/
inductive Pc
  | idle
  | answered (admitted : Bool)
  | allowLoad
  | allowOpened
  | allowClock (opened : Int)
  | allowCas
  | allowReload
  | successExchange
  | successCount
  | successSince
  | failureLoad
  | failureAdd
  | tripClock
  | tripSince (now : Nat)
  | tripState
  deriving DecidableEq

def Pc.advance (clock : Nat) (b : CircuitBreaker) : Pc → Option (Pc × CircuitBreaker)
  | .idle => none
  | .answered _ => none
  | .allowLoad => some (if b.state = .kOpen then .allowOpened else .answered true, b)
  | .allowOpened => some (.allowClock b.openSinceMs, b)
  | .allowClock opened => some (if b.cooledDown clock opened then .allowCas else .answered false, b)
  | .allowCas => some (if b.state = .kOpen then (.answered true, b.setState .kHalfOpen) else (.allowReload, b))
  | .allowReload => some (.answered (b.state != .kOpen), b)
  | .successExchange => some (.successCount, b.setState .kClosed)
  | .successCount => some (.successSince, b.setCount 0)
  | .successSince => some (.idle, b.setSince (-1))
  | .failureLoad =>
    some (match b.state with | .kHalfOpen => .tripClock | .kOpen => .idle | .kClosed => .failureAdd, b)
  | .failureAdd =>
    some (if b.threshold ≤ b.failureCount + 1 then .tripClock else .idle, b.setCount (b.failureCount + 1))
  | .tripClock => some (.tripSince clock, b)
  | .tripSince now => some (.tripState, b.setSince now)
  | .tripState => some (.idle, b.setState .kOpen)

def Method.entry : Method → Pc
  | .allowRequest => .allowLoad
  | .recordSuccess => .successExchange
  | .recordFailure => .failureLoad

structure Sys where
  breaker : CircuitBreaker
  clock : Nat := 0
  callers : List Pc

inductive Act
  | tick (ms : Nat)
  | start (i : Nat) (method : Method)
  | advance (i : Nat)

def Pc.free : Pc → Bool
  | .idle => true
  | .answered _ => true
  | _ => false

namespace Sys

def step (s : Sys) : Act → Option Sys
  | .tick ms => some { s with clock := s.clock + ms }
  | .start i method =>
    match s.callers[i]? with
    | some p => if p.free then some { s with callers := s.callers.set i method.entry } else none
    | none => none
  | .advance i =>
    match s.callers[i]? with
    | some p => (p.advance s.clock s.breaker).map fun r => { s with breaker := r.2, callers := s.callers.set i r.1 }
    | none => none

/-- What a step can do. -/
theorem step_cases {s s' : Sys} {a : Act} (h : s.step a = some s') :
    (∃ ms, a = .tick ms ∧ s' = { s with clock := s.clock + ms }) ∨
      (∃ i method p, a = .start i method ∧ s.callers[i]? = some p ∧ p.free = true ∧
        s' = { s with callers := s.callers.set i method.entry }) ∨
      ∃ i p r, a = .advance i ∧ s.callers[i]? = some p ∧ p.advance s.clock s.breaker = some r ∧
        s' = { s with breaker := r.2, callers := s.callers.set i r.1 } := by
  cases a with
  | tick ms => exact .inl ⟨ms, rfl, (Option.some.inj h).symm⟩
  | start i method =>
    right; left
    unfold step at h
    dsimp only at h
    split at h
    · rename_i p hp
      obtain ⟨hfree, rfl⟩ := guarded_eq_some.mp h
      exact ⟨i, method, p, rfl, hp, hfree, rfl⟩
    · cases h
  | advance i =>
    right; right
    unfold step at h
    dsimp only at h
    split at h
    · rename_i p hp
      obtain ⟨r, hr, rfl⟩ := Option.map_eq_some_iff.mp h
      exact ⟨i, p, r, rfl, hp, hr, rfl⟩
    · cases h

end Sys

/-! ### A caller that is not disturbed -/

/-- The caller takes its steps alone, at one time. -/
def Solo (clock : Nat) : Pc × CircuitBreaker → Pc × CircuitBreaker → Prop :=
  Relation.ReflTransGen fun x y => x.1.advance clock x.2 = some y

section Solo
variable (clock : Nat) (b : CircuitBreaker)

theorem Solo.cons {clock : Nat} {x y z : Pc × CircuitBreaker} (h : x.1.advance clock x.2 = some y)
    (hs : Solo clock y z) : Solo clock x z := Relation.ReflTransGen.head h hs

theorem Solo.done (clock : Nat) (x : Pc × CircuitBreaker) : Solo clock x x := Relation.ReflTransGen.refl

theorem solo_allow : Solo clock (.allowLoad, b) (.answered (b.allowRequest clock).1, (b.allowRequest clock).2) := by
  unfold CircuitBreaker.allowRequest
  cases hs : b.state with
  | kClosed =>
    apply Solo.cons (y := (.answered true, b)) _ (.done _ _)
    simp [Pc.advance, hs]
  | kHalfOpen =>
    apply Solo.cons (y := (.answered true, b)) _ (.done _ _)
    simp [Pc.advance, hs]
  | kOpen =>
    apply Solo.cons (y := (.allowOpened, b)) (by simp [Pc.advance, hs])
    apply Solo.cons (y := (.allowClock b.openSinceMs, b)) rfl
    dsimp only
    split
    · rename_i hcool
      apply Solo.cons (y := (.allowCas, b)) (by simp [Pc.advance, hcool])
      apply Solo.cons (y := (.answered true, b.setState .kHalfOpen)) _ (.done _ _)
      simp [Pc.advance, hs]
    · rename_i hcool
      apply Solo.cons (y := (.answered false, b)) _ (.done _ _)
      simp [Pc.advance, hcool]

theorem solo_success : Solo clock (.successExchange, b) (.idle, b.recordSuccess) := by
  apply Solo.cons (y := (.successCount, b.setState .kClosed)) rfl
  apply Solo.cons (y := (.successSince, (b.setState .kClosed).setCount 0)) rfl
  exact Solo.cons rfl (.done _ _)

theorem solo_trip : Solo clock (.tripClock, b) (.idle, b.tripOpen clock) := by
  apply Solo.cons (y := (.tripSince clock, b)) rfl
  apply Solo.cons (y := (.tripState, b.setSince clock)) rfl
  exact Solo.cons rfl (.done _ _)

theorem solo_failure : Solo clock (.failureLoad, b) (.idle, b.recordFailure clock) := by
  unfold CircuitBreaker.recordFailure
  cases hs : b.state with
  | kHalfOpen =>
    apply Solo.cons (y := (.tripClock, b)) (by simp [Pc.advance, hs])
    exact solo_trip clock b
  | kOpen =>
    apply Solo.cons (y := (.idle, b)) _ (.done _ _)
    simp [Pc.advance, hs]
  | kClosed =>
    apply Solo.cons (y := (.failureAdd, b)) (by simp [Pc.advance, hs])
    dsimp only
    split
    · rename_i htrip
      apply Solo.cons (y := (.tripClock, b.setCount (b.failureCount + 1))) (by simp [Pc.advance, htrip])
      exact solo_trip clock _
    · rename_i hbelow
      apply Solo.cons (y := (.idle, b.setCount (b.failureCount + 1))) _ (.done _ _)
      simp [Pc.advance, hbelow]

end Solo

/-! ### Clearing and setting the opening time -/

/-- `RecordSuccess` has closed the breaker, and is still to clear the opening time. -/
def Pc.clearing : Pc → Bool
  | .successCount => true
  | .successSince => true
  | _ => false

/-- A caller that closes the state finds no `TripOpen` between its two stores; one that sets the opening time finds none
that is still to clear it. -/
def Pc.apart (callers : List Pc) : Pc → Bool
  | .successExchange => !callers.contains .tripState
  | .tripSince _ => callers.all fun p => !p.clearing
  | _ => true

/-- The condition on the steps of a run. -/
def Apart (s : Sys) : Act → Prop
  | .advance i => s.callers[i]?.all (Pc.apart s.callers) = true
  | .tick _ => True
  | .start _ _ => True

instance (s : Sys) : ∀ a, Decidable (Apart s a)
  | .advance i => inferInstanceAs (Decidable (s.callers[i]?.all (Pc.apart s.callers) = true))
  | .tick _ => .isTrue trivial
  | .start _ _ => .isTrue trivial

/-- What keeps the opening time of an open breaker known. -/
structure Dated (s : Sys) : Prop where
  trip : .tripState ∈ s.callers → 0 ≤ s.breaker.openSinceMs ∧ ∀ p ∈ s.callers, p.clearing = false
  opened : s.breaker.state = .kOpen → 0 ≤ s.breaker.openSinceMs ∧ ∀ p ∈ s.callers, p.clearing = false
  since : s.breaker.openSinceMs ≤ s.clock
  clock : ∀ now, .tripSince now ∈ s.callers → now ≤ s.clock

section Dated
variable {s s' : Sys} {i : Nat} {p n : Pc} {b : CircuitBreaker}

theorem Dated.clock_set (h : Dated s) (hnew : ∀ now, n = .tripSince now → now ≤ s.clock) :
    ∀ now, .tripSince now ∈ s.callers.set i n → now ≤ s.clock := by
  intro now hmem
  rcases List.mem_or_eq_of_mem_set hmem with hmem | heq
  · exact h.clock now hmem
  · exact hnew now heq.symm

/-- A step that does not touch the opening time, does not open the breaker and begins no clearing. -/
theorem Dated.quiet (h : Dated s) (hp : s.callers[i]? = some p) (hsince : b.openSinceMs = s.breaker.openSinceMs)
    (hstate : b.state = .kOpen → s.breaker.state = .kOpen) (htrip : n ≠ .tripState)
    (hclear : n.clearing = true → p.clearing = true) (hclock : ∀ now, n = .tripSince now → now ≤ s.clock) :
    Dated { s with breaker := b, callers := s.callers.set i n } := by
  have hall : (∀ q ∈ s.callers, q.clearing = false) → ∀ q ∈ s.callers.set i n, q.clearing = false := by
    intro hno
    apply forall_mem_set hno
    by_contra hnew
    rw [Bool.not_eq_false] at hnew
    have := hno p (List.mem_of_getElem? hp)
    rw [hclear hnew] at this
    cases this
  refine ⟨fun hmem => ?_, fun hopen => ?_, ?_, h.clock_set hclock⟩
  · rcases List.mem_or_eq_of_mem_set hmem with hmem | heq
    · exact ⟨hsince ▸ (h.trip hmem).1, hall (h.trip hmem).2⟩
    · exact absurd heq.symm htrip
  · have hbefore := h.opened (hstate hopen)
    exact ⟨hsince ▸ hbefore.1, hall hbefore.2⟩
  · show b.openSinceMs ≤ _
    rw [hsince]
    exact h.since

theorem Dated.tick (h : Dated s) (ms : Nat) : Dated { s with clock := s.clock + ms } where
  trip := h.trip
  opened := h.opened
  since := by
    have := h.since
    push_cast
    omega
  clock now hmem := by
    have := h.clock now hmem
    show now ≤ s.clock + ms
    omega

theorem Dated.exchange (h : Dated s) (hapart : .tripState ∉ s.callers) :
    Dated { s with breaker := s.breaker.setState .kClosed, callers := s.callers.set i .successCount } where
  trip hmem := by
    rcases List.mem_or_eq_of_mem_set hmem with hmem | heq
    · exact absurd hmem hapart
    · cases heq
  opened hopen := by cases hopen
  since := h.since
  clock := h.clock_set nofun

/-- Where an opening time is cleared, no breaker is open and none is being opened. -/
theorem Dated.clear (h : Dated s) (hp : s.callers[i]? = some .successSince) :
    Dated { s with breaker := s.breaker.setSince (-1), callers := s.callers.set i .idle } := by
  have hmem := List.mem_of_getElem? hp
  refine ⟨fun htrip => ?_, fun hopen => ?_, ?_, h.clock_set nofun⟩
  · rcases List.mem_or_eq_of_mem_set htrip with htrip | heq
    · exact absurd ((h.trip htrip).2 _ hmem) (by decide)
    · cases heq
  · exact absurd ((h.opened hopen).2 _ hmem) (by decide)
  · rw [CircuitBreaker.setSince_openSinceMs]
    show (-1 : Int) ≤ s.clock
    omega

theorem Dated.setSince (h : Dated s) {now : Nat} (hp : s.callers[i]? = some (.tripSince now))
    (hapart : ∀ p ∈ s.callers, p.clearing = false) :
    Dated { s with breaker := s.breaker.setSince now, callers := s.callers.set i .tripState } := by
  have hall : ∀ q ∈ s.callers.set i .tripState, q.clearing = false := forall_mem_set hapart rfl
  have hnow : (0 : Int) ≤ now := by omega
  refine ⟨fun _ => ⟨hnow, hall⟩, fun _ => ⟨hnow, hall⟩, ?_, h.clock_set nofun⟩
  rw [CircuitBreaker.setSince_openSinceMs]
  exact Int.ofNat_le.mpr (h.clock now (List.mem_of_getElem? hp))

theorem Dated.opening (h : Dated s) (hp : s.callers[i]? = some .tripState) :
    Dated { s with breaker := s.breaker.setState .kOpen, callers := s.callers.set i .idle } := by
  obtain ⟨hsince, hno⟩ := h.trip (List.mem_of_getElem? hp)
  have hall : ∀ q ∈ s.callers.set i .idle, q.clearing = false := forall_mem_set hno rfl
  exact ⟨fun _ => ⟨hsince, hall⟩, fun _ => ⟨hsince, hall⟩, h.since, h.clock_set nofun⟩

theorem Dated.advance (h : Dated s) (hp : s.callers[i]? = some p) (hapart : p.apart s.callers = true)
    {r : Pc × CircuitBreaker} (hr : p.advance s.clock s.breaker = some r) :
    Dated { s with breaker := r.2, callers := s.callers.set i r.1 } := by
  cases p with
  | idle => cases hr
  | answered admitted => cases hr
  | allowLoad =>
    cases hr
    apply h.quiet hp rfl id <;> split <;> simp [Pc.clearing]
  | allowOpened =>
    cases hr
    exact h.quiet hp rfl id (by simp) (by simp [Pc.clearing]) (by simp)
  | allowClock opened =>
    cases hr
    apply h.quiet hp rfl id <;> split <;> simp [Pc.clearing]
  | allowCas =>
    cases hr
    split
    · exact h.quiet hp rfl (by simp) (by simp) (by simp [Pc.clearing]) (by simp)
    · exact h.quiet hp rfl id (by simp) (by simp [Pc.clearing]) (by simp)
  | allowReload =>
    cases hr
    exact h.quiet hp rfl id (by simp) (by simp [Pc.clearing]) (by simp)
  | successExchange =>
    cases hr
    apply h.exchange
    simpa [Pc.apart] using hapart
  | successCount =>
    cases hr
    exact h.quiet hp rfl id (by simp) (fun _ => rfl) (by simp)
  | successSince =>
    cases hr
    exact h.clear hp
  | failureLoad =>
    cases hr
    apply h.quiet hp rfl id <;> split <;> simp [Pc.clearing]
  | failureAdd =>
    cases hr
    apply h.quiet (b := s.breaker.setCount (s.breaker.failureCount + 1)) hp rfl id <;> split <;> simp [Pc.clearing]
  | tripClock =>
    cases hr
    refine h.quiet hp rfl id (by simp) (by simp [Pc.clearing]) ?_
    rintro now ⟨⟩
    exact le_refl _
  | tripSince now =>
    cases hr
    apply h.setSince hp
    simpa [Pc.apart] using hapart
  | tripState =>
    cases hr
    exact h.opening hp

theorem dated_step {a : Act} (h : Dated s) (hapart : Apart s a) (hstep : s.step a = some s') : Dated s' := by
  obtain ⟨ms, rfl, rfl⟩ | ⟨i, method, p, rfl, hp, -, rfl⟩ | ⟨i, p, r, rfl, hp, hr, rfl⟩ := Sys.step_cases hstep
  · exact h.tick ms
  · have hquiet := h.quiet (b := s.breaker) (n := method.entry) hp rfl id
    cases method <;> exact hquiet (by decide) (by simp [Method.entry, Pc.clearing]) (by simp [Method.entry])
  · apply h.advance hp _ hr
    have hall : s.callers[i]?.all (Pc.apart s.callers) = true := hapart
    rwa [hp] at hall

end Dated

def Sys.init (threshold cooldownSec : Int) (callers : Nat) : Sys where
  breaker := CircuitBreaker.create threshold cooldownSec
  callers := List.replicate callers .idle

theorem dated_init (threshold cooldownSec : Int) (callers : Nat) : Dated (Sys.init threshold cooldownSec callers) where
  trip hmem := by cases List.eq_of_mem_replicate hmem
  opened hopen := by cases hopen
  since := by
    show (-1 : Int) ≤ 0
    decide
  clock now hmem := by cases List.eq_of_mem_replicate hmem

/-- Whatever the callers did, in whatever order, as long as no clearing of the opening time overlaps its setting: when the
cooldown has passed, a request that is made alone is admitted. -/
theorem never_stuck (threshold cooldownSec : Int) (callers : Nat) {acts : List Act} {s : Sys}
    (hapart : Along Sys.step Apart (Sys.init threshold cooldownSec callers) acts)
    (hrun : run Sys.step (Sys.init threshold cooldownSec callers) acts = some s) {now : Nat}
    (hnow : s.clock + s.breaker.cooldownMs ≤ now) : ∃ b, Solo now (.allowLoad, s.breaker) (.answered true, b) := by
  have h : Dated s := run_inv dated_step (dated_init threshold cooldownSec callers) hapart hrun
  have hadmit : (s.breaker.allowRequest now).1 = true := by
    apply s.breaker.allowRequest_admits
    intro hs
    have hknown := (h.opened hs).1
    have hpast := h.since
    rw [s.breaker.cooledDown_iff]
    omega
  refine ⟨(s.breaker.allowRequest now).2, ?_⟩
  rw [← hadmit]
  exact solo_allow now s.breaker

/-- A failure trips a breaker of threshold 1. After the cooldown a request of the other caller is admitted and succeeds;
the first caller fails again while the success is being recorded, and trips when the opening time is cleared. -/
def tripped : List Act :=
  [.start 0 .recordFailure, .advance 0, .advance 0, .advance 0, .advance 0, .advance 0, .tick 1000,
    .start 1 .allowRequest, .advance 1, .advance 1, .advance 1, .advance 1,
    .start 1 .recordSuccess, .advance 1, .start 0 .recordFailure, .advance 0, .advance 1, .advance 0, .advance 1,
    .tick 5, .advance 0, .advance 0, .advance 0]

theorem never_stuck_tripped :
    ∃ b, Solo 2005 (.allowLoad, (CircuitBreaker.create 1 1).setCount 1 |>.tripOpen 1005) (.answered true, b) :=
  @never_stuck 1 1 2 tripped ⟨(CircuitBreaker.create 1 1).setCount 1 |>.tripOpen 1005, 1005, [.idle, .idle]⟩
    (by decide) rfl 2005 (by decide)

/-! ### A breaker that refuses for good -/

/-- The caller refuses, or does nothing to the breaker, when it is open without an opening time. -/
def Pc.harmless : Pc → Bool
  | .idle => true
  | .answered admitted => !admitted
  | .allowLoad => true
  | .allowOpened => true
  | .allowClock opened => decide (opened < 0)
  | .failureLoad => true
  | _ => false

structure Stuck (s : Sys) : Prop where
  state : s.breaker.state = .kOpen
  since : s.breaker.openSinceMs < 0
  callers : ∀ p ∈ s.callers, p.harmless = true

/-- Nothing was admitted, so nothing succeeds. -/
def NoSuccess (_ : Sys) (a : Act) : Prop := ∀ i, a ≠ .start i .recordSuccess

theorem stuck_step {s s' : Sys} {a : Act} (h : Stuck s) (hno : NoSuccess s a) (hstep : s.step a = some s') :
    Stuck s' := by
  obtain ⟨ms, rfl, rfl⟩ | ⟨i, method, p, rfl, hp, -, rfl⟩ | ⟨i, p, r, rfl, hp, hr, rfl⟩ := Sys.step_cases hstep
  · exact ⟨h.state, h.since, h.callers⟩
  · refine ⟨h.state, h.since, forall_mem_set h.callers ?_⟩
    cases method with
    | allowRequest => rfl
    | recordSuccess => exact absurd rfl (hno i)
    | recordFailure => rfl
  · have hkeep : r.2 = s.breaker ∧ r.1.harmless = true := by
      have hp' := h.callers p (List.mem_of_getElem? hp)
      have hsince := h.since
      cases p with
      | idle => cases hr
      | answered admitted => cases hr
      | allowLoad =>
        cases hr
        rw [if_pos h.state]
        exact ⟨rfl, rfl⟩
      | allowOpened =>
        cases hr
        exact ⟨rfl, decide_eq_true hsince⟩
      | allowClock opened =>
        cases hr
        have hneg : opened < 0 := of_decide_eq_true hp'
        have hcool : s.breaker.cooledDown s.clock opened = false := by
          rw [← Bool.not_eq_true, s.breaker.cooledDown_iff]
          omega
        rw [hcool]
        exact ⟨rfl, rfl⟩
      | failureLoad =>
        cases hr
        rw [h.state]
        exact ⟨rfl, rfl⟩
      | _ => cases hp'
    refine ⟨?_, ?_, forall_mem_set h.callers hkeep.2⟩
    · rw [hkeep.1]
      exact h.state
    · rw [hkeep.1]
      exact h.since

/-- A breaker that is open without an opening time refuses, at whatever time, until a success is recorded. -/
theorem refuses_for_good {s s' : Sys} {acts : List Act} (h : Stuck s) (hno : Along Sys.step NoSuccess s acts)
    (hrun : run Sys.step s acts = some s') : .answered true ∉ s'.callers := by
  intro hmem
  have hstuck : Stuck s' := run_inv stuck_step h hno hrun
  exact absurd (hstuck.callers _ hmem) (by decide)

/-- A success is recorded between the two stores of the failure that trips the breaker. -/
def overlapped : List Act :=
  [.start 0 .recordFailure, .advance 0, .advance 0, .advance 0, .advance 0, .start 1 .recordSuccess, .advance 1,
    .advance 1, .advance 1, .advance 0]

/-- Two calls that overlap bring a new breaker there. -/
theorem stuck_open :
    ∃ s, run Sys.step (Sys.init 1 1 2) overlapped = some s ∧
      ∀ acts s', Along Sys.step NoSuccess s acts → run Sys.step s acts = some s' → .answered true ∉ s'.callers :=
  ⟨⟨((((CircuitBreaker.create 1 1).setCount 1).setSince 0).recordSuccess).setState .kOpen, 0, [.idle, .idle]⟩, rfl,
    fun _ _ => refuses_for_good ⟨rfl, by decide, by decide⟩⟩

end Cortrix.Reranker
