import Cortrix.Lib.Bytes

/-!
# JwtCodec: what a token is read as

* `base64UrlDecode` : padding is skipped wherever it stands, and `+` and `/` stand for `-` and `_`.
-/

namespace Cortrix.Auth
open Lib

structure Payload where
  sub : Bytes
  sid : Bytes
  exp : Int
  type : Bytes := []
  jti : Bytes := []
  deriving DecidableEq

def Payload.isRefresh (p : Payload) : Bool := p.type == [0x72, 0x65, 0x66, 0x72, 0x65, 0x73, 0x68]

structure Codec where
  /-- `HmacSha256`: secret and message. -/
  hmac : Bytes → Bytes → Bytes
  /-- Whether the JSON has the algorithm `HS256`. -/
  parseHeader : Bytes → Option Bool
  parseClaims : Bytes → Option Payload
  acceptSecrets : List Bytes

/-! ## base64url -/

def padChar : UInt8 := 0x3D

def decodeChar (c : UInt8) : Option Nat :=
  if 0x41 ≤ c ∧ c ≤ 0x5A then some (c.toNat - 0x41)
  else if 0x61 ≤ c ∧ c ≤ 0x7A then some (c.toNat - 0x61 + 26)
  else if 0x30 ≤ c ∧ c ≤ 0x39 then some (c.toNat - 0x30 + 52)
  else if c = 0x2B ∨ c = 0x2D then some 62
  else if c = 0x2F ∨ c = 0x5F then some 63
  else none

/-- Four values are three bytes; the bits that do not fill a byte are dropped. -/
def joinValues : List Nat → Except String Bytes
  | a :: b :: c :: d :: rest =>
    let n := a * 2 ^ 18 + b * 2 ^ 12 + c * 2 ^ 6 + d
    (joinValues rest).map fun bytes => .ofNat (n / 2 ^ 16) :: .ofNat (n / 2 ^ 8) :: .ofNat n :: bytes
  | [a, b, c] =>
    let n := a * 2 ^ 18 + b * 2 ^ 12 + c * 2 ^ 6
    .ok [.ofNat (n / 2 ^ 16), .ofNat (n / 2 ^ 8)]
  | [a, b] =>
    let n := a * 2 ^ 18 + b * 2 ^ 12
    .ok [.ofNat (n / 2 ^ 16)]
  | [_] => .error "invalid base64url length"
  | [] => .ok []

def base64UrlDecode (s : Bytes) : Except String Bytes :=
  match (s.filter (· ≠ padChar)).mapM decodeChar with
  | none => .error "invalid base64url char"
  | some vals => joinValues vals

def encodeChar (v : Nat) : UInt8 :=
  if v < 26 then .ofNat (v + 0x41)
  else if v < 52 then .ofNat (v - 26 + 0x61)
  else if v < 62 then .ofNat (v - 52 + 0x30)
  else if v = 62 then 0x2D else 0x5F

/-- Three bytes are four values. -/
def splitValues : Bytes → List Nat
  | a :: b :: c :: rest =>
    let n := a.toNat * 2 ^ 16 + b.toNat * 2 ^ 8 + c.toNat
    n / 2 ^ 18 :: n / 2 ^ 12 % 64 :: n / 2 ^ 6 % 64 :: n % 64 :: splitValues rest
  | [a, b] =>
    let n := a.toNat * 2 ^ 16 + b.toNat * 2 ^ 8
    [n / 2 ^ 18, n / 2 ^ 12 % 64, n / 2 ^ 6 % 64]
  | [a] =>
    let n := a.toNat * 2 ^ 16
    [n / 2 ^ 18, n / 2 ^ 12 % 64]
  | [] => []

def base64UrlEncode (data : Bytes) : Bytes := (splitValues data).map encodeChar

theorem encodeChar_spec {v : Nat} (h : v < 64) :
    decodeChar (encodeChar v) = some v ∧ encodeChar v ≠ padChar ∧ encodeChar v ≠ 0x2E := by
  have hall : ∀ v : Fin 64, decodeChar (encodeChar v) = some v.val ∧ encodeChar v ≠ padChar ∧ encodeChar v ≠ 0x2E := by
    decide
  exact hall ⟨v, h⟩

theorem splitValues_lt (data : Bytes) : ∀ v ∈ splitValues data, v < 64 := by
  fun_induction splitValues data with
  | case1 a b c rest n ih =>
    have ha := a.toNat_lt
    have hb := b.toNat_lt
    have hc := c.toNat_lt
    intro v hv
    simp only [List.mem_cons] at hv
    rcases hv with rfl | rfl | rfl | rfl | hv
    · omega
    · omega
    · omega
    · omega
    · exact ih v hv
  | case2 a b n =>
    have ha := a.toNat_lt
    have hb := b.toNat_lt
    simp only [List.mem_cons, List.not_mem_nil, or_false, forall_eq_or_imp, forall_eq]
    omega
  | case3 a n =>
    have ha := a.toNat_lt
    simp only [List.mem_cons, List.not_mem_nil, or_false, forall_eq_or_imp, forall_eq]
    omega
  | case4 => simp

theorem ofNat_eq_of_mod {n : Nat} {b : UInt8} (h : n % 256 = b.toNat) : UInt8.ofNat n = b := by
  rw [← UInt8.toNat_inj, UInt8.toNat_ofNat']
  exact h

theorem joinValues_splitValues (data : Bytes) : joinValues (splitValues data) = .ok data := by
  fun_induction splitValues data with
  | case1 a b c rest n ih =>
    have ha := a.toNat_lt
    have hb := b.toNat_lt
    have hc := c.toNat_lt
    have hn : n / 2 ^ 18 * 2 ^ 18 + n / 2 ^ 12 % 64 * 2 ^ 12 + n / 2 ^ 6 % 64 * 2 ^ 6 + n % 64 = n := by omega
    rw [joinValues, ih]
    rw [hn, ofNat_eq_of_mod (b := a) (by omega), ofNat_eq_of_mod (b := b) (by omega),
      ofNat_eq_of_mod (b := c) (by omega)]
    rfl
  | case2 a b n =>
    have ha := a.toNat_lt
    have hb := b.toNat_lt
    have hn : n / 2 ^ 18 * 2 ^ 18 + n / 2 ^ 12 % 64 * 2 ^ 12 + n / 2 ^ 6 % 64 * 2 ^ 6 = n := by omega
    rw [joinValues]
    rw [hn, ofNat_eq_of_mod (b := a) (by omega), ofNat_eq_of_mod (b := b) (by omega)]
  | case3 a n =>
    have ha := a.toNat_lt
    have hn : n / 2 ^ 18 * 2 ^ 18 + n / 2 ^ 12 % 64 * 2 ^ 12 = n := by omega
    rw [joinValues]
    rw [hn, ofNat_eq_of_mod (b := a) (by omega)]
  | case4 => rfl

theorem base64UrlDecode_map {values : List Nat} (h : ∀ v ∈ values, v < 64) :
    base64UrlDecode (values.map encodeChar) = joinValues values := by
  have hfilter : (values.map encodeChar).filter (· ≠ padChar) = values.map encodeChar := by
    rw [List.filter_eq_self]
    intro c hc
    obtain ⟨v, hv, rfl⟩ := List.mem_map.mp hc
    simpa using (encodeChar_spec (h v hv)).2.1
  have hread : (values.map encodeChar).mapM decodeChar = some values := by
    clear hfilter
    induction values with
    | nil => rfl
    | cons v values ih =>
      have hv := (encodeChar_spec (h v List.mem_cons_self)).1
      rw [List.map_cons, List.mapM_cons, hv, ih fun w hw => h w (List.mem_cons_of_mem _ hw)]
      rfl
  unfold base64UrlDecode
  rw [hfilter, hread]

theorem base64UrlDecode_encode (data : Bytes) : base64UrlDecode (base64UrlEncode data) = .ok data := by
  rw [base64UrlEncode, base64UrlDecode_map (splitValues_lt data), joinValues_splitValues]

/-! ## Tokens -/

def dot : UInt8 := 0x2E

def segments (token : Bytes) : Except String (Bytes × Bytes × Bytes) :=
  match token.dropWhile (· ≠ dot) with
  | [] => .error "malformed jwt (no segments)"
  | _ :: rest =>
    match rest.dropWhile (· ≠ dot) with
    | [] => .error "malformed jwt (segment count)"
    | _ :: sig =>
      if dot ∈ sig then .error "malformed jwt (segment count)"
      else .ok (token.takeWhile (· ≠ dot), rest.takeWhile (· ≠ dot), sig)

/-- `Decode` up to the expiry. -/
def payloadOf (cd : Codec) (token : Bytes) : Except String Payload := do
  let (header, payload, sig) ← segments token
  let headerJson ← base64UrlDecode header
  match cd.parseHeader headerJson with
  | none => throw "bad jwt header json"
  | some false => throw "unsupported jwt alg"
  | some true => pure ()
  let provided ← base64UrlDecode sig
  if !cd.acceptSecrets.any (fun secret => cd.hmac secret (header ++ dot :: payload) == provided) then
    throw "jwt signature mismatch"
  let payloadJson ← base64UrlDecode payload
  match cd.parseClaims payloadJson with
  | none => throw "bad jwt payload json"
  | some p => pure p

def Payload.expired (p : Payload) (now : Int) : Prop := p.exp ≠ 0 ∧ p.exp ≤ now

instance (p : Payload) (now : Int) : Decidable (p.expired now) := inferInstanceAs (Decidable (_ ∧ _))

def decode (cd : Codec) (token : Bytes) (now : Int) : Except String Payload := do
  let p ← payloadOf cd token
  if p.expired now then throw "jwt expired"
  pure p

variable {cd : Codec} {token : Bytes} {p : Payload} {now : Int}

theorem decode_eq_ok : decode cd token now = .ok p ↔ payloadOf cd token = .ok p ∧ ¬ p.expired now := by
  unfold decode
  cases hp : payloadOf cd token with
  | error e => simp [bind, Except.bind]
  | ok q =>
    by_cases hq : q.expired now
    · simp only [bind, Except.bind, hq, if_true, throw, throwThe, MonadExceptOf.throw, reduceCtorEq, Except.ok.injEq,
        false_iff, not_and, not_not]
      rintro rfl
      exact hq
    · simp only [bind, Except.bind, hq, if_false, pure, Except.pure, Except.ok.injEq]
      constructor
      · rintro rfl
        exact ⟨rfl, hq⟩
      · exact fun h => h.1

theorem dot_notMem_encode (data : Bytes) : dot ∉ base64UrlEncode data := by
  intro hmem
  obtain ⟨v, hv, hdot⟩ := List.mem_map.mp hmem
  exact (encodeChar_spec (splitValues_lt data v hv)).2.2 hdot

theorem cut_at_dot {l : Bytes} (h : dot ∉ l) (rest : Bytes) :
    (l ++ dot :: rest).takeWhile (· ≠ dot) = l ∧ (l ++ dot :: rest).dropWhile (· ≠ dot) = dot :: rest := by
  have hl : ∀ b ∈ l, decide (b ≠ dot) = true := by
    intro b hb
    have hne : b ≠ dot := fun heq => h (heq ▸ hb)
    simp [hne]
  constructor
  · rw [List.takeWhile_append_of_pos hl]
    simp
  · rw [List.dropWhile_append_of_pos hl]
    simp

/-- `Encode`: the JSON of the header and of the claims, signed. -/
def encode (cd : Codec) (secret headerJson claimsJson : Bytes) : Bytes :=
  let signingInput := base64UrlEncode headerJson ++ dot :: base64UrlEncode claimsJson
  signingInput ++ dot :: base64UrlEncode (cd.hmac secret signingInput)

theorem segments_encode (secret headerJson claimsJson : Bytes) :
    segments (encode cd secret headerJson claimsJson) = .ok (base64UrlEncode headerJson, base64UrlEncode claimsJson,
      base64UrlEncode (cd.hmac secret (base64UrlEncode headerJson ++ dot :: base64UrlEncode claimsJson))) := by
  unfold encode segments
  rw [List.append_assoc, List.cons_append]
  obtain ⟨hheader, hrest⟩ := cut_at_dot (dot_notMem_encode headerJson) (base64UrlEncode claimsJson ++
    dot :: base64UrlEncode (cd.hmac secret (base64UrlEncode headerJson ++ dot :: base64UrlEncode claimsJson)))
  obtain ⟨hclaims, hsig⟩ := cut_at_dot (dot_notMem_encode claimsJson)
    (base64UrlEncode (cd.hmac secret (base64UrlEncode headerJson ++ dot :: base64UrlEncode claimsJson)))
  rw [hrest, hheader]
  dsimp only
  rw [hsig, hclaims]
  exact if_neg (dot_notMem_encode _)

end Cortrix.Auth
