import Cortrix.Lib.TokenBucket

/-!
# RateLimiter: three strata of token buckets

A request is checked against the bucket of its address, that of its key and the global one. What it took from the
buckets in front of a denial is given back. The clock is read before the mutex is taken, so the readings of successive
calls need not be in order, and a reading that lies before the last refill takes tokens away.

* numbers are exact; a clock reading is a number of nanoseconds;
* `limiter_sound` : the promises of the limiter; a lock may come early only when a reading is out of order.
-/

namespace Cortrix.Middleware.RateLimiter
open Lib

inductive RateLimitStratum
  | kPerIp | kPerApiKey | kGlobal

structure RateLimitRule where
  refill_per_sec : Rat
  burst : Rat
  window : String
  limit : Int

structure Bucket where
  tokens : Rat := 0
  last_refill : Int := 0
  /-- The epoch: not locked. -/
  locked_until : Int := 0
  initialized : Bool := false

structure RateLimitDecision where
  allowed : Bool := true
  stratum : RateLimitStratum := .kGlobal
  limit : Int := 0
  window : String := ""
  remaining : Rat := 0
  retry_after_ms : Int := 0
  reset_at_unix_ms : Int := 0
  locked_until_unix_ms : Int := 0

/-! ## CheckBucket -/

def kLockMs : Int := 5 * 60 * 1000

def msToNs (ms : Int) : Int := ms * 1000000

def nsToMs (ns : Int) : Int := ns.tdiv 1000000

def seconds (ns : Int) : Rat := ns / 1000000000

def SteadyToWallMs (wall_now steady_tp steady_now : Int) : Int := wall_now + nsToMs (steady_tp - steady_now)

def denial (rule : RateLimitRule) (stratum : RateLimitStratum) (retry_after_ms locked_until_unix_ms : Int) :
    RateLimitDecision where
  allowed := false
  stratum := stratum
  limit := rule.limit
  window := rule.window
  remaining := 0
  retry_after_ms := retry_after_ms
  reset_at_unix_ms := locked_until_unix_ms
  locked_until_unix_ms := locked_until_unix_ms

/-- A bucket is full when it is first checked. -/
def ready (rule : RateLimitRule) (now : Int) (bucket : Bucket) : Bucket :=
  if bucket.initialized then bucket
  else { tokens := rule.burst, last_refill := now, locked_until := 0, initialized := true }

def stdMin (a b : Rat) : Rat := if b < a then b else a

def refill (rule : RateLimitRule) (now : Int) (bucket : Bucket) : Bucket :=
  { bucket with
    tokens := stdMin rule.burst (bucket.tokens + seconds (now - bucket.last_refill) * rule.refill_per_sec)
    last_refill := now }

def CheckBucket (bucket : Bucket) (rule : RateLimitRule) (stratum : RateLimitStratum) (now wall_now : Int) :
    Bucket × Option RateLimitDecision :=
  let bucket := ready rule now bucket
  if now < bucket.locked_until then
    (bucket, some (denial rule stratum (nsToMs (bucket.locked_until - now))
      (SteadyToWallMs wall_now bucket.locked_until now)))
  else
    let bucket := refill rule now bucket
    if 1 ≤ bucket.tokens then ({ bucket with tokens := bucket.tokens - 1 }, none)
    else
      let bucket := { bucket with locked_until := now + msToNs kLockMs }
      (bucket, some (denial rule stratum kLockMs (SteadyToWallMs wall_now bucket.locked_until now)))

/-! ## Allow -/

inductive BucketId
  | ip (client_ip : String)
  | key (api_key : String)
  | global
  deriving DecidableEq

/-- `ip_buckets_`, `key_buckets_` and `global_bucket_`; a bucket that is not in its map is a fresh one. -/
abbrev Buckets := BucketId → Bucket

structure Rules where
  ip_rule_ : RateLimitRule
  key_rule_ : RateLimitRule
  global_rule_ : RateLimitRule

def Rules.rule (rules : Rules) : BucketId → RateLimitRule
  | .ip _ => rules.ip_rule_
  | .key _ => rules.key_rule_
  | .global => rules.global_rule_

def BucketId.stratum : BucketId → RateLimitStratum
  | .ip _ => .kPerIp
  | .key _ => .kPerApiKey
  | .global => .kGlobal

structure Call where
  client_ip : String
  api_key : String
  now : Int
  wall_now : Int

/-- The buckets to check, the global one last. -/
def applicable (c : Call) : List BucketId :=
  (if c.client_ip = "" then [] else [.ip c.client_ip]) ++ (if c.api_key = "" then [] else [.key c.api_key]) ++ [.global]

variable (rules : Rules)

def checked (c : Call) (s : Buckets) (id : BucketId) : Bucket × Option RateLimitDecision :=
  CheckBucket (s id) (rules.rule id) id.stratum c.now c.wall_now

def Bucket.addToken (b : Bucket) : Bucket := { b with tokens := b.tokens + 1 }

def refund (consumed : List BucketId) (s : Buckets) : Buckets := fun id =>
  if id ∈ consumed then (s id).addToken else s id

/-- The checks of the remaining buckets; `consumed` are those that gave a token. -/
def checkFrom (c : Call) : List BucketId → List BucketId → Buckets → Buckets × RateLimitDecision
  | _, [], s => (s, {})
  | consumed, id :: ids, s =>
    match checked rules c s id with
    | (b, none) => checkFrom c (consumed ++ [id]) ids (Function.update s id b)
    | (b, some decision) => (refund consumed (Function.update s id b), decision)

def Allow (s : Buckets) (c : Call) : Buckets × RateLimitDecision := checkFrom rules c [] (applicable c) s

def after (s : Buckets) (calls : List Call) : Buckets := calls.foldl (fun s c => (Allow rules s c).1) s

def fresh : Buckets := fun _ => {}

/-! ## What a call does -/

def Passes (c : Call) (s : Buckets) (id : BucketId) : Prop := (checked rules c s id).2 = none

instance (c : Call) (s : Buckets) (id : BucketId) : Decidable (Passes rules c s id) :=
  inferInstanceAs (Decidable (_ = none))

/-- The call passes all its buckets, or it is denied by one and gives back what it took. -/
inductive Outcome (c : Call) (s s' : Buckets) (consumed ids : List BucketId) (decision : RateLimitDecision) : Prop
  | admitted : (∀ id ∈ ids, Passes rules c s id) → decision = {} →
      (∀ id, s' id = if id ∈ ids then (checked rules c s id).1 else s id) → Outcome c s s' consumed ids decision
  | denied (before : List BucketId) (bad : BucketId) (rest : List BucketId) : ids = before ++ bad :: rest →
      (∀ id ∈ before, Passes rules c s id) → (checked rules c s bad).2 = some decision →
      (∀ id, s' id =
        if id ∈ consumed then (s id).addToken
        else if id ∈ before then (checked rules c s id).1.addToken
        else if id = bad then (checked rules c s id).1
        else s id) → Outcome c s s' consumed ids decision

variable {rules}

variable {c : Call} {s : Buckets} {id : BucketId}

theorem checked_update {id' : BucketId} {b : Bucket} (h : id' ≠ id) :
    checked rules c (Function.update s id b) id' = checked rules c s id' := by
  rw [checked, Function.update_of_ne h, checked]

theorem checkFrom_outcome {consumed ids : List BucketId} (hnd : ids.Nodup) (hdisj : ∀ id ∈ ids, id ∉ consumed) :
    Outcome rules c s (checkFrom rules c consumed ids s).1 consumed ids (checkFrom rules c consumed ids s).2 := by
  induction ids generalizing consumed s with
  | nil => exact .admitted (by simp) rfl fun id => by simp [checkFrom]
  | cons id ids ih =>
    obtain ⟨hid, hnd⟩ := List.nodup_cons.mp hnd
    obtain ⟨hnew, hdisj⟩ := List.forall_mem_cons.mp hdisj
    cases hcheck : checked rules c s id with
    | mk b o =>
      cases o with
      | some decision =>
        have hstep : checkFrom rules c consumed (id :: ids) s =
            (refund consumed (Function.update s id b), decision) := by rw [checkFrom, hcheck]
        rw [hstep]
        refine .denied [] id ids rfl (by simp) (by rw [hcheck]) fun id' => ?_
        have hrefund : refund consumed (Function.update s id b) id' =
            if id' ∈ consumed then (Function.update s id b id').addToken else Function.update s id b id' := rfl
        refine hrefund.trans ?_
        rw [if_neg (c := id' ∈ []) (by simp)]
        by_cases h : id' = id
        · subst h
          rw [if_neg hnew, if_neg hnew, if_pos rfl, Function.update_self, hcheck]
        · rw [Function.update_of_ne h, if_neg h]
      | none =>
        have hpass : Passes rules c s id := by rw [Passes, hcheck]
        have hne : ∀ id' ∈ ids, id' ≠ id := fun id' hmem heq => hid (heq ▸ hmem)
        have hstep : checkFrom rules c consumed (id :: ids) s =
            checkFrom rules c (consumed ++ [id]) ids (Function.update s id b) := by rw [checkFrom, hcheck]
        rw [hstep]
        have hdisj' : ∀ id' ∈ ids, id' ∉ consumed ++ [id] := fun id' hmem hin =>
          (List.mem_append.mp hin).elim (hdisj id' hmem) fun hone => hne id' hmem (List.mem_singleton.mp hone)
        rcases ih hnd hdisj' with ⟨hall, hd, hs⟩ | ⟨before, bad, rest, rfl, hall, hbad, hs⟩
        · refine .admitted (List.forall_mem_cons.mpr ⟨hpass, fun id' hmem => ?_⟩) hd fun id' => ?_
          · have h := hall id' hmem
            rwa [Passes, checked_update (hne id' hmem)] at h
          · rw [hs]
            by_cases h : id' = id
            · subst h
              rw [if_neg hid, if_pos List.mem_cons_self, Function.update_self, hcheck]
            · rw [checked_update h, Function.update_of_ne h]
              simp [h]
        · have hbad_ne := hne bad (by simp)
          rw [checked_update hbad_ne] at hbad
          refine .denied (id :: before) bad rest rfl (List.forall_mem_cons.mpr ⟨hpass, fun id' hmem => ?_⟩) hbad
            fun id' => ?_
          · have h := hall id' hmem
            rwa [Passes, checked_update (hne id' (by simp [hmem]))] at h
          · rw [hs]
            by_cases h : id' = id
            · subst h
              rw [if_pos (by simp), if_neg hnew, if_pos List.mem_cons_self, Function.update_self, hcheck]
            · rw [checked_update h, Function.update_of_ne h]
              simp [h]

theorem nodup_applicable (c : Call) : (applicable c).Nodup := by
  unfold applicable
  split <;> split <;> simp

variable (rules) in
theorem Allow_outcome (c : Call) (s : Buckets) :
    Outcome rules c s (Allow rules s c).1 [] (applicable c) (Allow rules s c).2 :=
  checkFrom_outcome (nodup_applicable c) (by simp)

/-! ## A bucket of the limiter as a token bucket -/

theorem CheckBucket_cases (b : Bucket) (rule : RateLimitRule) (stratum : RateLimitStratum) (now wall_now : Int) :
    (now < (ready rule now b).locked_until ∧ (CheckBucket b rule stratum now wall_now).1 = ready rule now b ∧
        (CheckBucket b rule stratum now wall_now).2 ≠ none) ∨
      (¬ now < (ready rule now b).locked_until ∧ ¬ 1 ≤ (refill rule now (ready rule now b)).tokens ∧
        (CheckBucket b rule stratum now wall_now).1 =
          { refill rule now (ready rule now b) with locked_until := now + msToNs kLockMs } ∧
        (CheckBucket b rule stratum now wall_now).2 ≠ none) ∨
      (¬ now < (ready rule now b).locked_until ∧ 1 ≤ (refill rule now (ready rule now b)).tokens ∧
        (CheckBucket b rule stratum now wall_now).1 =
          { refill rule now (ready rule now b) with tokens := (refill rule now (ready rule now b)).tokens - 1 } ∧
        (CheckBucket b rule stratum now wall_now).2 = none) := by
  unfold CheckBucket
  by_cases hlock : now < (ready rule now b).locked_until
  · rw [if_pos hlock]
    exact .inl ⟨hlock, rfl, by simp⟩
  · rw [if_neg hlock]
    by_cases htoken : 1 ≤ (refill rule now (ready rule now b)).tokens
    · rw [if_pos htoken]
      exact .inr (.inr ⟨hlock, htoken, rfl, rfl⟩)
    · rw [if_neg htoken]
      exact .inr (.inl ⟨hlock, htoken, rfl, by simp⟩)

theorem seconds_lt {a b : Int} : seconds a < seconds b ↔ a < b := by
  unfold seconds
  rw [div_lt_div_iff_of_pos_right (by norm_num), Int.cast_lt]

theorem seconds_le {a b : Int} : seconds a ≤ seconds b ↔ a ≤ b := by
  unfold seconds
  rw [div_le_div_iff_of_pos_right (by norm_num), Int.cast_le]

theorem seconds_sub (a b : Int) : seconds (a - b) = seconds a - seconds b := by
  unfold seconds
  rw [Int.cast_sub, sub_div]

theorem seconds_lock (now : Int) : seconds (now + msToNs kLockMs) = seconds now + 300 := by
  have h : msToNs kLockMs = 300000000000 := by decide
  unfold seconds
  rw [h, Int.cast_add, add_div]
  norm_num

theorem seconds_zero : seconds 0 = 0 := by
  unfold seconds
  norm_num

structure RateLimitRule.Valid (rule : RateLimitRule) : Prop where
  rate_pos : 0 < rule.refill_per_sec
  one_le : 1 ≤ rule.burst

def tokenRule {rule : RateLimitRule} (h : rule.Valid) : TokenBucket.Rule Rat where
  rate := rule.refill_per_sec
  burst := rule.burst
  lock := 300
  epoch := 0
  rate_pos := h.rate_pos
  one_le := h.one_le

def Bucket.opened (b : Bucket) : TokenBucket.Bucket Rat := ⟨b.tokens, seconds b.last_refill, seconds b.locked_until⟩

/-- A bucket that was checked before. -/
def view (b : Bucket) : Option (TokenBucket.Bucket Rat) := if b.initialized then some b.opened else none

section
variable {rule : RateLimitRule} (h : rule.Valid) (b : Bucket) (now : Int)

theorem opened_ready : (ready rule now b).opened = TokenBucket.opened (tokenRule h) (view b) (seconds now) := by
  unfold ready view
  split
  · rfl
  · rw [Bucket.opened, seconds_zero]
    rfl

variable (rule) in
theorem initialized_ready : (ready rule now b).initialized = true := by
  unfold ready
  split
  · assumption
  · rfl

theorem stdMin_eq (a b : Rat) : stdMin a b = min a b := by
  unfold stdMin
  split
  · rename_i hlt
    exact (min_eq_right hlt.le).symm
  · rename_i hle
    exact (min_eq_left (not_lt.mp hle)).symm

theorem refill_tokens : (refill rule now b).tokens = TokenBucket.refilled (tokenRule h) b.opened (seconds now) := by
  rw [refill, stdMin_eq, seconds_sub]
  rfl

theorem view_of_initialized {b : Bucket} (h : b.initialized = true) : view b = some b.opened := if_pos h

theorem check_passes {stratum : RateLimitStratum} {wall_now : Int}
    (hpass : (CheckBucket b rule stratum now wall_now).2 = none) :
    TokenBucket.Passes (tokenRule h) (TokenBucket.opened (tokenRule h) (view b) (seconds now)) (seconds now) ∧
      view (CheckBucket b rule stratum now wall_now).1 = some (TokenBucket.visit (tokenRule h)
        (TokenBucket.opened (tokenRule h) (view b) (seconds now)) (seconds now, true)) ∧
      view (CheckBucket b rule stratum now wall_now).1.addToken = some (TokenBucket.visit (tokenRule h)
        (TokenBucket.opened (tokenRule h) (view b) (seconds now)) (seconds now, false)) ∧
      (CheckBucket b rule stratum now wall_now).1.addToken = refill rule now (ready rule now b) := by
  rcases CheckBucket_cases b rule stratum now wall_now with ⟨_, _, hno⟩ | ⟨_, _, _, hno⟩ | ⟨hlock, htoken, heq, _⟩
  · exact absurd hpass hno
  · exact absurd hpass hno
  · rw [← opened_ready h, heq]
    rw [refill_tokens h] at htoken
    have hunlocked : ¬ seconds now < (ready rule now b).opened.lockedUntil := fun hlt => hlock (seconds_lt.mp hlt)
    have hinit := initialized_ready rule b now
    refine ⟨⟨not_lt.mp hunlocked, htoken⟩, ?_, ?_, ?_⟩
    · rw [view_of_initialized (by exact hinit), TokenBucket.visit, if_neg hunlocked, if_neg (not_lt.mpr htoken)]
      rw [← refill_tokens h]
      rfl
    · rw [view_of_initialized (by exact hinit), TokenBucket.visit, if_neg hunlocked, if_neg (not_lt.mpr htoken)]
      rw [← refill_tokens h, Bucket.addToken, Bucket.opened]
      simp only [sub_add_cancel]
      rw [TokenBucket.cost, if_neg (by simp), sub_zero]
      rfl
    · rw [Bucket.addToken]
      simp only [sub_add_cancel]

theorem check_denies {stratum : RateLimitStratum} {wall_now : Int}
    (hno : (CheckBucket b rule stratum now wall_now).2 ≠ none) :
    view (CheckBucket b rule stratum now wall_now).1 = some (TokenBucket.visit (tokenRule h)
      (TokenBucket.opened (tokenRule h) (view b) (seconds now)) (seconds now, false)) := by
  have hinit := initialized_ready rule b now
  rw [← opened_ready h]
  rcases CheckBucket_cases b rule stratum now wall_now with ⟨hlock, heq, _⟩ | ⟨hlock, htoken, heq, _⟩ | ⟨_, _, _, hpass⟩
  · have hlocked : seconds now < (ready rule now b).opened.lockedUntil := seconds_lt.mpr hlock
    rw [heq, view_of_initialized hinit, TokenBucket.visit, if_pos hlocked]
  · have hunlocked : ¬ seconds now < (ready rule now b).opened.lockedUntil := fun hlt => hlock (seconds_lt.mp hlt)
    rw [refill_tokens h, not_le] at htoken
    rw [heq, view_of_initialized (by exact hinit), TokenBucket.visit, if_neg hunlocked, if_pos htoken,
      ← refill_tokens h, Bucket.opened, seconds_lock]
    rfl
  · exact absurd hpass hno

end

/-! ## The visits of a series of calls -/

section
variable (rules)

/-- The buckets that a call checks: up to the first that denies it. -/
def reachedFrom (c : Call) (s : Buckets) : List BucketId → List BucketId
  | [] => []
  | id :: ids => id :: if Passes rules c s id then reachedFrom c s ids else []

def reached (c : Call) (s : Buckets) : List BucketId := reachedFrom rules c s (applicable c)

/-- The visits that a bucket gets: the reading of each call that reaches it, and whether the call was admitted. -/
def visitsTo (id : BucketId) : Buckets → List Call → List (TokenBucket.Visit Rat)
  | _, [] => []
  | s, c :: calls =>
    (if id ∈ reached rules c s then [(seconds c.now, (Allow rules s c).2.allowed)] else []) ++
      visitsTo id (Allow rules s c).1 calls

/-- No call reads the clock before the last refill of a bucket that it reaches. -/
def ReadInOrder : Buckets → List Call → Prop
  | _, [] => True
  | s, c :: calls => (∀ id ∈ reached rules c s, (s id).initialized = true → (s id).last_refill ≤ c.now) ∧
      ReadInOrder (Allow rules s c).1 calls

def decReadInOrder : (s : Buckets) → (calls : List Call) → Decidable (ReadInOrder rules s calls)
  | _, [] => .isTrue trivial
  | s, c :: calls =>
    have := decReadInOrder (Allow rules s c).1 calls
    inferInstanceAs (Decidable (_ ∧ _))

instance (s : Buckets) (calls : List Call) : Decidable (ReadInOrder rules s calls) := decReadInOrder rules s calls

end

theorem reachedFrom_all {ids : List BucketId} (h : ∀ id ∈ ids, Passes rules c s id) :
    reachedFrom rules c s ids = ids := by
  induction ids with
  | nil => rfl
  | cons id ids ih =>
    obtain ⟨hid, hids⟩ := List.forall_mem_cons.mp h
    rw [reachedFrom, if_pos hid, ih hids]

theorem reachedFrom_cut {before rest : List BucketId} {bad : BucketId} (h : ∀ id ∈ before, Passes rules c s id)
    (hbad : ¬ Passes rules c s bad) : reachedFrom rules c s (before ++ bad :: rest) = before ++ [bad] := by
  induction before with
  | nil => rw [List.nil_append, reachedFrom, if_neg hbad, List.nil_append]
  | cons id before ih =>
    obtain ⟨hid, hids⟩ := List.forall_mem_cons.mp h
    rw [List.cons_append, reachedFrom, if_pos hid, ih hids, List.cons_append]

theorem reached_cut {before rest : List BucketId} {bad : BucketId} {decision : RateLimitDecision}
    (hids : applicable c = before ++ bad :: rest) (hall : ∀ id ∈ before, Passes rules c s id)
    (hbad : (checked rules c s bad).2 = some decision) : reached rules c s = before ++ [bad] := by
  rw [reached, hids]
  exact reachedFrom_cut hall (by rw [Passes, hbad]; simp)

theorem denied_of_checked {decision : RateLimitDecision} (h : (checked rules c s id).2 = some decision) :
    decision.allowed = false ∧ decision.stratum = id.stratum := by
  unfold checked CheckBucket at h
  dsimp only at h
  split at h
  · cases h
    exact ⟨rfl, rfl⟩
  · split at h
    · exact absurd h (by simp)
    · cases h
      exact ⟨rfl, rfl⟩

theorem Allow_unreached (h : id ∉ reached rules c s) : (Allow rules s c).1 id = s id := by
  rcases Allow_outcome rules c s with ⟨hall, _, hs⟩ | ⟨before, bad, rest, hids, hall, hbad, hs⟩
  · rw [reached, reachedFrom_all hall] at h
    rw [hs, if_neg h]
  · rw [reached_cut hids hall hbad, List.mem_append, List.mem_singleton, not_or] at h
    rw [hs, if_neg (by simp), if_neg h.1, if_neg h.2]

theorem view_Allow (hvalid : ∀ id, (rules.rule id).Valid) (h : id ∈ reached rules c s) :
    view ((Allow rules s c).1 id) = some (TokenBucket.visit (tokenRule (hvalid id))
        (TokenBucket.opened (tokenRule (hvalid id)) (view (s id)) (seconds c.now))
        (seconds c.now, (Allow rules s c).2.allowed)) ∧
      ((Allow rules s c).2.allowed = true → TokenBucket.Passes (tokenRule (hvalid id))
        (TokenBucket.opened (tokenRule (hvalid id)) (view (s id)) (seconds c.now)) (seconds c.now)) := by
  rcases Allow_outcome rules c s with ⟨hall, hd, hs⟩ | ⟨before, bad, rest, hids, hall, hbad, hs⟩
  · rw [reached, reachedFrom_all hall] at h
    obtain ⟨hpass, hview, _⟩ := check_passes (hvalid id) (s id) c.now (hall id h)
    rw [hs, if_pos h, hd]
    exact ⟨hview, fun _ => hpass⟩
  · have hno : (checked rules c s bad).2 ≠ none := by
      rw [hbad]
      simp
    rw [reached_cut hids hall hbad, List.mem_append, List.mem_singleton] at h
    rw [(denied_of_checked hbad).1, hs, if_neg (by simp)]
    refine ⟨?_, by simp⟩
    by_cases hmem : id ∈ before
    · rw [if_pos hmem]
      exact (check_passes (hvalid id) (s id) c.now (hall id hmem)).2.2.1
    · obtain rfl := h.resolve_left hmem
      rw [if_neg hmem, if_pos rfl]
      exact check_denies (hvalid id) (s id) c.now hno

theorem view_after (hvalid : ∀ id, (rules.rule id).Valid) (id : BucketId) (s : Buckets) (calls : List Call) :
    view (after rules s calls id) =
        TokenBucket.run (tokenRule (hvalid id)) (view (s id)) (visitsTo rules id s calls) ∧
      TokenBucket.Admits (tokenRule (hvalid id)) (view (s id)) (visitsTo rules id s calls) := by
  induction calls generalizing s with
  | nil => exact ⟨rfl, trivial⟩
  | cons c calls ih =>
    obtain ⟨hrun, hadm⟩ := ih (Allow rules s c).1
    rw [visitsTo]
    by_cases h : id ∈ reached rules c s
    · obtain ⟨hview, hpass⟩ := view_Allow hvalid h
      rw [hview] at hrun hadm
      rw [if_pos h]
      exact ⟨hrun, hpass, hadm⟩
    · rw [Allow_unreached h] at hrun hadm
      rw [if_neg h]
      exact ⟨hrun, hadm⟩

theorem inOrder_visitsTo (hvalid : ∀ id, (rules.rule id).Valid) (id : BucketId) {calls : List Call}
    (h : ReadInOrder rules s calls) :
    TokenBucket.InOrder (tokenRule (hvalid id)) (view (s id)) (visitsTo rules id s calls) := by
  induction calls generalizing s with
  | nil => trivial
  | cons c calls ih =>
    obtain ⟨hc, hcalls⟩ := h
    have hrest := ih hcalls
    rw [visitsTo]
    by_cases hid : id ∈ reached rules c s
    · rw [(view_Allow hvalid hid).1] at hrest
      rw [if_pos hid]
      refine ⟨fun b hb => ?_, hrest⟩
      unfold view at hb
      split at hb
      · rename_i hinit
        cases hb
        exact seconds_le.mpr (hc id hid hinit)
      · cases hb
    · rw [Allow_unreached hid] at hrest
      rw [if_neg hid]
      exact hrest

/-! ## The promises -/

section
variable (rules)

/-- What reading the clock alone makes of a bucket. -/
def readClock (rule : RateLimitRule) (now : Int) (b : Bucket) : Bucket := refill rule now (ready rule now b)

/-- A denied call has read the clock at the buckets in front of the one that denied it, and touched no others. -/
def FairDenial (s : Buckets) (c : Call) : Prop :=
  (Allow rules s c).2.allowed = false → ∃ before bad rest, applicable c = before ++ bad :: rest ∧
    (Allow rules s c).2.stratum = bad.stratum ∧
    (∀ id ∈ before, (Allow rules s c).1 id = readClock (rules.rule id) c.now (s id)) ∧
    (∀ id, id ∉ before → id ≠ bad → (Allow rules s c).1 id = s id) ∧
    ∀ id, id ≠ bad → readClock (rules.rule id) c.now ((Allow rules s c).1 id) = readClock (rules.rule id) c.now (s id)

structure Sound (calls : List Call) : Prop where
  admitted_le : ∀ (id : BucketId) (run : List (TokenBucket.Visit Rat)) (a T : Rat),
    run <:+: visitsTo rules id fresh calls → 0 ≤ T → (∀ v ∈ run, a ≤ v.1 ∧ v.1 ≤ a + T) →
    (run.countP (fun v => v.2) : Rat) ≤ (rules.rule id).burst + (rules.rule id).refill_per_sec * T
  tokens_le : ∀ id, (after rules fresh calls id).tokens ≤ (rules.rule id).burst
  fair : ∀ c, FairDenial rules (after rules fresh calls) c

def BecomesLocked (now : Int) (b b' : Bucket) : Prop := b.locked_until ≤ now ∧ now < b'.locked_until

/-- A bucket that the last call locks was reached by a crowd that ends with this call. -/
def JustLocks (calls : List Call) (c : Call) : Prop :=
  ∀ id, BecomesLocked c.now (after rules fresh calls id) (after rules fresh (calls ++ [c]) id) →
    ∃ crowd a T, crowd ≠ [] ∧ crowd <:+ visitsTo rules id fresh (calls ++ [c]) ∧
      (∀ v ∈ crowd, a ≤ v.1 ∧ v.1 ≤ a + T) ∧
      (rules.rule id).burst + (rules.rule id).refill_per_sec * T < (crowd.length : Rat)

end

theorem after_snoc (s : Buckets) (calls : List Call) (c : Call) :
    after rules s (calls ++ [c]) = (Allow rules (after rules s calls) c).1 := by
  rw [after, List.foldl_append]
  rfl

theorem visitsTo_append (id : BucketId) (s : Buckets) (calls calls' : List Call) :
    visitsTo rules id s (calls ++ calls') =
      visitsTo rules id s calls ++ visitsTo rules id (after rules s calls) calls' := by
  induction calls generalizing s with
  | nil => rfl
  | cons c calls ih =>
    rw [List.cons_append, visitsTo, ih, visitsTo, List.append_assoc]
    rfl

theorem view_eq_some {b : Bucket} {x : TokenBucket.Bucket Rat} (h : view b = some x) :
    b.initialized = true ∧ x = b.opened := by
  unfold view at h
  split at h
  · exact ⟨‹_›, (Option.some.inj h).symm⟩
  · cases h

section
variable (hvalid : ∀ id, (rules.rule id).Valid)
include hvalid

theorem unchecked (calls : List Call) (id : BucketId) (h : (after rules fresh calls id).initialized = false) :
    after rules fresh calls id = {} := by
  induction calls using List.reverseRecOn with
  | nil => rfl
  | append_singleton calls c ih =>
    rw [after_snoc] at h ⊢
    by_cases hid : id ∈ reached rules c (after rules fresh calls)
    · have hinit := (view_eq_some (view_Allow hvalid hid).1).1
      rw [h] at hinit
      cases hinit
    · rw [Allow_unreached hid] at h ⊢
      exact ih h

theorem tokens_le (calls : List Call) (id : BucketId) :
    (after rules fresh calls id).tokens ≤ (rules.rule id).burst := by
  cases hinit : (after rules fresh calls id).initialized with
  | false =>
    rw [unchecked hvalid calls id hinit]
    exact zero_le_one.trans (hvalid id).one_le
  | true =>
    have hview := view_of_initialized hinit
    rw [(view_after hvalid id fresh calls).1] at hview
    exact TokenBucket.run_level_le (r := tokenRule (hvalid id)) (by rintro b ⟨⟩) _ _ hview

theorem admitted_le (calls : List Call) (id : BucketId) {run : List (TokenBucket.Visit Rat)} {a T : Rat}
    (hrun : run <:+: visitsTo rules id fresh calls) (hT : 0 ≤ T) (hread : ∀ v ∈ run, a ≤ v.1 ∧ v.1 ≤ a + T) :
    (run.countP (fun v => v.2) : Rat) ≤ (rules.rule id).burst + (rules.rule id).refill_per_sec * T := by
  obtain ⟨before, behind, heq⟩ := hrun
  have hadm := (view_after hvalid id fresh calls).2
  rw [← heq, List.append_assoc] at hadm
  have hinside := (TokenBucket.admits_append.mp (TokenBucket.admits_append.mp hadm).2).1
  exact TokenBucket.charged_le hT hinside hread

omit hvalid in
theorem readClock_idem (rule : RateLimitRule) (now : Int) (b : Bucket) :
    readClock rule now (readClock rule now b) = readClock rule now b := by
  have hready : ready rule now (readClock rule now b) = readClock rule now b :=
    if_pos (initialized_ready rule b now)
  have htokens : stdMin rule.burst ((readClock rule now b).tokens +
      seconds (now - (readClock rule now b).last_refill) * rule.refill_per_sec) = (readClock rule now b).tokens := by
    have hlast : (readClock rule now b).last_refill = now := rfl
    have hfull : (readClock rule now b).tokens ≤ rule.burst := by
      rw [readClock, refill, stdMin_eq]
      exact min_le_left _ _
    rw [hlast, sub_self, seconds_zero, zero_mul, add_zero, stdMin_eq, min_eq_right hfull]
  rw [readClock, hready, refill, htokens]
  rfl

theorem fairDenial (s : Buckets) (c : Call) : FairDenial rules s c := by
  intro hdenied
  rcases Allow_outcome rules c s with ⟨_, hd, _⟩ | ⟨before, bad, rest, hids, hall, hbad, hs⟩
  · rw [hd] at hdenied
    cases hdenied
  · have hbefore : ∀ id ∈ before, (Allow rules s c).1 id = readClock (rules.rule id) c.now (s id) := by
      intro id hid
      rw [hs, if_neg (by simp), if_pos hid]
      exact (check_passes (hvalid id) (s id) c.now (hall id hid)).2.2.2
    have hother : ∀ id, id ∉ before → id ≠ bad → (Allow rules s c).1 id = s id := by
      intro id hid hne
      rw [hs, if_neg (by simp), if_neg hid, if_neg hne]
    refine ⟨before, bad, rest, hids, (denied_of_checked hbad).2, hbefore, hother, fun id hne => ?_⟩
    by_cases hid : id ∈ before
    · rw [hbefore id hid, readClock_idem]
    · rw [hother id hid hne]

theorem breaches_of_locked {calls : List Call} {c : Call} {id : BucketId}
    (h : BecomesLocked c.now (after rules fresh calls id) (after rules fresh (calls ++ [c]) id)) :
    id ∈ reached rules c (after rules fresh calls) ∧ TokenBucket.Breaches (tokenRule (hvalid id))
      (TokenBucket.opened (tokenRule (hvalid id)) (view (after rules fresh calls id)) (seconds c.now))
      (seconds c.now) := by
  obtain ⟨hbefore, hbehind⟩ := h
  rw [after_snoc] at hbehind
  have hreached : id ∈ reached rules c (after rules fresh calls) := by
    by_contra hno
    rw [Allow_unreached hno] at hbehind
    exact absurd hbehind (not_lt.mpr hbefore)
  refine ⟨hreached, ?_⟩
  obtain ⟨hview, _⟩ := view_Allow hvalid hreached
  obtain ⟨_, hvisit⟩ := view_eq_some hview
  have hopen : (TokenBucket.opened (tokenRule (hvalid id)) (view (after rules fresh calls id))
      (seconds c.now)).lockedUntil ≤ seconds c.now := by
    rw [← opened_ready (hvalid id)]
    refine seconds_le.mpr (le_trans (le_of_eq ?_) hbefore)
    unfold ready
    split
    · rfl
    · rename_i hinit
      rw [unchecked hvalid calls id (Bool.eq_false_iff.mpr hinit)]
  have hlocked : seconds c.now < ((Allow rules (after rules fresh calls) c).1 id).opened.lockedUntil :=
    seconds_lt.mpr hbehind
  rw [← hvisit] at hlocked
  rcases TokenBucket.visit_cases (tokenRule (hvalid id)) (TokenBucket.opened (tokenRule (hvalid id))
    (view (after rules fresh calls id)) (seconds c.now))
    (seconds c.now, (Allow rules (after rules fresh calls) c).2.allowed) with ⟨hlt, _⟩ | ⟨hbreach, _⟩ | ⟨_, heq⟩
  · exact absurd hlt (not_lt.mpr hopen)
  · exact hbreach
  · rw [heq] at hlocked
    exact absurd hlocked (not_lt.mpr hopen)

theorem justLocks {calls : List Call} {c : Call} (hord : ReadInOrder rules fresh (calls ++ [c])) :
    JustLocks rules calls c := by
  intro id hlocked
  obtain ⟨hreached, hbreach⟩ := breaches_of_locked hvalid hlocked
  obtain ⟨hrun, hadm⟩ := view_after hvalid id fresh calls
  have hlast : visitsTo rules id (after rules fresh calls) [c] =
      [(seconds c.now, (Allow rules (after rules fresh calls) c).2.allowed)] := by
    rw [visitsTo, if_pos hreached]
    rfl
  have hinOrder := inOrder_visitsTo hvalid id hord
  rw [visitsTo_append, hlast] at hinOrder ⊢
  rw [hrun] at hbreach
  exact TokenBucket.crowded hadm hinOrder hbreach

end

/-- The limiter is sound and fair whatever the readings are; and where no call reads the clock before the last refill of
a bucket that it reaches, a lock is always due to a crowd. -/
theorem limiter_sound (rules : Rules) (hvalid : ∀ id, (rules.rule id).Valid) (calls : List Call) :
    Sound rules calls ∧ ∀ c, ReadInOrder rules fresh (calls ++ [c]) → JustLocks rules calls c :=
  ⟨⟨fun id _ _ _ => admitted_le hvalid calls id, tokens_le hvalid calls, fun c => fairDenial hvalid _ c⟩,
    fun _ => justLocks hvalid⟩

def slowRules : Rules := ⟨⟨1, 2, "1s", 1⟩, ⟨1, 2, "1s", 1⟩, ⟨1, 2, "1s", 1⟩⟩

theorem slowRules_valid (id : BucketId) : (slowRules.rule id).Valid := by
  have hrule : slowRules.rule id = ⟨1, 2, "1s", 1⟩ := by cases id <;> rfl
  rw [hrule]
  exact ⟨by decide, by decide⟩

def callAt (now : Int) : Call := ⟨"", "", now, 0⟩

theorem limiter_sound_slow : Sound slowRules [callAt 10000000000, callAt 10000000000] ∧
    JustLocks slowRules [callAt 10000000000, callAt 10000000000] (callAt 10000000000) :=
  ⟨(limiter_sound slowRules slowRules_valid _).1, (limiter_sound slowRules slowRules_valid _).2 _ (by decide +kernel)⟩

/-- Two calls lock a bucket of two tokens: the second has read the clock half a second before the first. -/
theorem stale_reading_locks : (∀ id, (slowRules.rule id).Valid) ∧
    ¬ JustLocks slowRules [callAt 10000000000] (callAt 9500000000) := by
  refine ⟨slowRules_valid, fun h => ?_⟩
  obtain ⟨crowd, a, T, hne, hsuffix, hread, hlt⟩ := h .global ⟨by decide +kernel, by decide +kernel⟩
  have hlen : (visitsTo slowRules .global fresh ([callAt 10000000000] ++ [callAt 9500000000])).length = 2 := by
    decide +kernel
  have hle : (crowd.length : Rat) ≤ 2 := by
    have h := hsuffix.length_le
    rw [hlen] at h
    exact_mod_cast h
  obtain ⟨v, hv⟩ := List.exists_mem_of_ne_nil crowd hne
  have hburst : (slowRules.rule .global).burst = 2 := rfl
  have hrate : (slowRules.rule .global).refill_per_sec = 1 := rfl
  rw [hburst, hrate] at hlt
  linarith [hread v hv]

end Cortrix.Middleware.RateLimiter
