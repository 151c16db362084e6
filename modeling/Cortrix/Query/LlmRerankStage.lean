import Cortrix.Common.Json
import Cortrix.Common.Status
import Cortrix.Lib.Borda

/-!
# The listwise rerank stage

A language model ranks overlapping windows of the head of a response, from the last one up; several votes per window
are aggregated by a Borda count, and the head is reordered when every window has a usable vote.

* the replies are given for every window and run, `exhausted` where the budget leaves no call; a reply's text is given
  as the parser reads it;
* `α` is what a result holds besides its score; scores are exact.
-/

namespace Cortrix.Query.LlmRerank
open Lib

structure LlmRerankConfig where
  enabled : Bool := false
  topN : Int32 := 20
  consensusRuns : Int32 := 1

def kLlmRerankConsensusRunsMin : Int32 := 1
def kLlmRerankConsensusRunsMax : Int32 := 3
def kLlmRerankWindowSize : Nat := 20
def kLlmRerankWindowStride : Nat := 10

variable {α : Type}

structure ResultItem (α : Type) where
  score : Rat
  rest : α

structure Response (α : Type) where
  results : List (ResultItem α)
  warnings : List Json := []

/-- What a call returns: a failed status, or a text, which may be no JSON. -/
inductive Reply
  | failed (status : Status)
  | content (parsed : Except String Json)

inductive Vote
  | exhausted
  | answered (model : String) (reply : Reply)

structure ExplainState where
  active : Bool := false
  degraded : Bool := false
  orderChanged : Bool := false
  topNEffective : Nat := 0
  llmCalls : Nat := 0
  votesOk : Nat := 0
  modelUsed : String := ""
  reason : String := ""
  degradeReason : String := ""
  degradeDetail : String := ""

/-! ## Failed calls -/

def degradedWarning : Json :=
  .obj [("category", .str "transient"), ("code", .str "CX_WARN_LLM_RERANK_DEGRADED"),
    ("reason", .str "llm_rerank_degraded"), ("retry_after_ms", .int 1000)]

def containsText (k : List Char) : List Char → Bool
  | [] => k.isEmpty
  | c :: m => k.isPrefixOf (c :: m) || containsText k m

def degradeReasonToken (status : Status) : String :=
  let m := status.message.toList.map Char.toLower
  let has := fun k : String => containsText k.toList m
  if has "cx_llm_budget_exhausted" then "budget_exhausted"
  else if has "cx_llm_transport" then "llm_transport"
  else if has "cx_llm_rate_limit" || has "quota" || has "429" then "quota_exceeded"
  else if has "cx_llm_bad_body" then "invalid_response"
  else if has "cx_llm_http" then "llm_http"
  else if has "circuit" then "circuit_open"
  else if has "timeout" || has "timed out" || has "deadline" then "llm_timeout"
  else "llm_error"

/-- The first `http_status=` of a message and the digits behind it. -/
def httpStatus : List Char → String
  | [] => ""
  | c :: m =>
    let needle := "http_status=".toList
    if needle.isPrefixOf (c :: m) then
      let digits := ((c :: m).drop needle.length).takeWhile Char.isDigit
      if digits.isEmpty then "" else String.ofList (needle ++ digits)
    else httpStatus m

def safeDegradeDetail (status : Status) : String := httpStatus status.message.toList

/-! ## A ranking -/

/-- `std::stoll` of the first run of digits, `-1` without one or when it does not fit. -/
def firstIntInString (s : String) : Int :=
  let digits := (s.toList.dropWhile fun c => !c.isDigit).takeWhile Char.isDigit
  let v := digits.foldl (fun (v : Nat) c => 10 * v + (c.toNat - 48)) 0
  if digits.isEmpty then -1 else if v < 2 ^ 63 then (v : Int) else -1

/-- `get<long long>()`. -/
def asLongLong (n : Int) : Int := n.bmod (2 ^ 64)

/-- The first of the keys that holds an integer or a text. -/
def keyIndex (fields : Metadata) : List String → Int
  | [] => -1
  | key :: keys =>
    match Metadata.getKey key fields with
    | some (.int n) => asLongLong n
    | some (.str s) => firstIntInString s
    | _ => keyIndex fields keys

def entryToIndex : Json → Int
  | .int n => asLongLong n
  | .str s => firstIntInString s
  | .obj fields => keyIndex fields ["index", "id", "passage", "rank"]
  | _ => -1

/-- One entry of the ranking; `order` is also what has been seen. -/
def rankEntry (n : Nat) (order : List Nat) (entry : Json) : List Nat :=
  let v := entryToIndex entry
  if v < 1 ∨ (n : Int) < v then order
  else if order.contains (v - 1).toNat then order else order ++ [(v - 1).toNat]

def appendMissing (n : Nat) (order : List Nat) : List Nat :=
  (List.range n).foldl (fun order i => if order.contains i then order else order ++ [i]) order

def parseRankingJson (content : Except String Json) (n : Nat) : Except String (List Nat) :=
  match content with
  | .error e => .error ("not valid JSON: " ++ e)
  | .ok (.obj fields) =>
    match Metadata.getKey "ranking" fields with
    | none => .error "missing 'ranking' key"
    | some (.arr ranking) =>
      let order := ranking.foldl (rankEntry n) []
      if order.isEmpty then .error "'ranking' contains no usable index in [1, N]" else .ok (appendMissing n order)
    | some _ => .error "'ranking' is not an array"
  | .ok _ => .error "top-level JSON is not an object"

def presentationOrder (n run : Nat) : List Nat :=
  match run % 3 with
  | 1 => (List.range n).reverse
  | 2 => ((List.range ((n + 1) / 2)).map fun i => 2 * i) ++ (List.range (n / 2)).map fun i => 2 * i + 1
  | _ => List.range n

/-! ## Windows -/

def nextStarts (start : Nat) : List Nat :=
  if 0 < start then
    let next := if kLlmRerankWindowStride < start then start - kLlmRerankWindowStride else 0
    next :: nextStarts next
  else []
  termination_by start
  decreasing_by
    unfold kLlmRerankWindowStride
    split <;> omega

def windowStarts (n : Nat) : List Nat :=
  if n ≤ kLlmRerankWindowSize then [0] else (n - kLlmRerankWindowSize) :: nextStarts (n - kLlmRerankWindowSize)

def windowCount (n start : Nat) : Nat := min kLlmRerankWindowSize (n - start)

/-- The locals of a window and the stage's last failure. -/
structure Tally where
  points : List Nat
  windowVotes : Nat := 0
  es : ExplainState
  lastFailReason : String
  lastFailDetail : String

def castVote (count : Nat) (t : Tally) (run : Nat) : Vote → Tally
  | .exhausted => { t with lastFailReason := "budget_exhausted", lastFailDetail := "" }
  | .answered model reply =>
    let es := { t.es with
      llmCalls := t.es.llmCalls + 1, modelUsed := if t.es.modelUsed.isEmpty then model else t.es.modelUsed }
    match reply with
    | .failed status =>
      { t with es := es, lastFailReason := degradeReasonToken status, lastFailDetail := safeDegradeDetail status }
    | .content parsed =>
      match parseRankingJson parsed count with
      | .error schemaError =>
        { t with es := es, lastFailReason := "invalid_response", lastFailDetail := schemaError }
      | .ok presentedRank =>
        { t with
          points := addBallot count 0 t.points (presentedRank.map fun r => (presentationOrder count run).getD r 0)
          windowVotes := t.windowVotes + 1
          es := { es with votesOk := es.votesOk + 1 } }

def castVotes (count : Nat) (votes : Nat → Vote) (consensus : Nat) (t : Tally) : Tally :=
  (List.range consensus).foldl (fun t run => castVote count t run (votes run)) t

/-- `position` holds the result at each rank of the head. -/
structure Sweep where
  position : List Nat
  es : ExplainState := {}
  lastFailReason : String := ""
  lastFailDetail : String := ""

def Sweep.initial (n : Nat) : Sweep :=
  { position := List.range n, es := { topNEffective := n, active := true, reason := "active" } }

def rankWindow (n consensus : Nat) (votes : Nat → Vote) (start : Nat) (s : Sweep) : Except ExplainState Sweep :=
  let count := windowCount n start
  let t := castVotes count votes consensus
    { points := List.replicate count 0
      es := s.es
      lastFailReason := s.lastFailReason
      lastFailDetail := s.lastFailDetail }
  if t.windowVotes = 0 then
    .error { t.es with
      degraded := true
      degradeReason := if t.lastFailReason.isEmpty then "llm_error" else t.lastFailReason
      degradeDetail := t.lastFailDetail }
  else
    let newWindow := (standing count t.points).map fun slot => s.position.getD (start + slot) 0
    .ok
      { position := s.position.take start ++ newWindow ++ s.position.drop (start + count)
        es := t.es
        lastFailReason := t.lastFailReason
        lastFailDetail := t.lastFailDetail }

def rankWindows (n consensus : Nat) (votes : Nat → Nat → Vote) : Nat → Sweep → List Nat → Except ExplainState Sweep
  | _, s, [] => .ok s
  | k, s, start :: starts =>
    match rankWindow n consensus (votes k) start s with
    | .error es => .error es
    | .ok s => rankWindows n consensus votes (k + 1) s starts

/-! ## The stage -/

/-- `static_cast<size_t>(cfg.top_n)`, at most the number of results. -/
def headLength (cfg : LlmRerankConfig) (results : List (ResultItem α)) : Nat :=
  min cfg.topN.toInt64.toUInt64.toNat results.length

def consensusRuns (cfg : LlmRerankConfig) : Nat :=
  let runs := if kLlmRerankConsensusRunsMax < cfg.consensusRuns then kLlmRerankConsensusRunsMax else cfg.consensusRuns
  (if runs < kLlmRerankConsensusRunsMin then kLlmRerankConsensusRunsMin else runs).toInt.toNat

def tailMax (tail : List (ResultItem α)) : Rat :=
  tail.foldl (fun m item => if m < item.score then item.score else m) 0

def rescore (n : Nat) (base : Rat) : Nat → List (ResultItem α) → List (ResultItem α)
  | _, [] => []
  | i, item :: head => { item with score := base + mkRat (n - i : Nat) (n + 1) } :: rescore n base (i + 1) head

def apply (llm : Option (Nat → Nat → Vote)) (cfg : LlmRerankConfig) (resp : Response α) : Response α × ExplainState :=
  if cfg.enabled = false then (resp, { reason := "disabled" })
  else if resp.results.length < 2 then (resp, { reason := "too_few_results" })
  else
    match llm with
    | none =>
      ({ resp with warnings := resp.warnings ++ [degradedWarning] },
        { reason := "llm_unavailable", degraded := true, degradeReason := "llm_error" })
    | some votes =>
      let n := headLength cfg resp.results
      match rankWindows n (consensusRuns cfg) votes 0 (Sweep.initial n) (windowStarts n) with
      | .error es => ({ resp with warnings := resp.warnings ++ [degradedWarning] }, es)
      | .ok s =>
        if s.position = List.range n then (resp, s.es)
        else
          let head := s.position.filterMap fun i => resp.results[i]?
          let tail := resp.results.drop n
          ({ resp with results := rescore n (tailMax tail) 0 head ++ tail }, { s.es with orderChanged := true })

end Cortrix.Query.LlmRerank
