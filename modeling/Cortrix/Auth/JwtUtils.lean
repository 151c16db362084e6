import Cortrix.Auth.Jwt
import Cortrix.Common.Decode
import Cortrix.Common.Json
import Mathlib.Data.List.TakeWhile

/-!
# JwtCodec: tokens of two kinds

* `JwtPayload`, `claims`, `Encode`, `Decode` follow the source; HMAC-SHA256 and the JSON text are a `JwtCodec`;
* `jwt_round_trip` : tokens come back, and what is accepted is signed and not expired.
-/

namespace Cortrix.Auth.JwtUtils
open Lib Metadata

inductive AuthErrorCode
  | kUnauthorized | kTokenExpired

structure AuthStatus where
  code : AuthErrorCode
  message : String

def unauthorized (message : String) : AuthStatus := ⟨.kUnauthorized, message⟩

structure JwtPayload where
  sub : String := ""
  sid : String := ""
  iat : Int64 := 0
  exp : Int64 := 0
  iss : String := "cortrix-auth"
  aud : String := "cortrix"
  email : String := ""
  tenant_id : String := ""
  role : String := ""
  type : String := ""
  jti : String := ""

def JwtPayload.is_refresh (p : JwtPayload) : Bool := p.type == "refresh"

/-- What stands outside the codec. -/
structure JwtCodec where
  hmac : Bytes → Bytes → Bytes
  dump : Metadata → Bytes
  /-- `parse`; none where it throws. -/
  parse : Bytes → Option Json
  /-- A number with a fraction as an `int64_t`. -/
  toInt64 : Rat → Int64

/-! ## Encode -/

def kHeaderJson : Bytes := "\x7b\"alg\":\"HS256\",\"typ\":\"JWT\"\x7d".toUTF8.toList

def claims (p : JwtPayload) : Metadata :=
  let common := setKey "aud" (.str p.aud) (setKey "iss" (.str p.iss) (setKey "exp" (.int p.exp.toInt)
    (setKey "iat" (.int p.iat.toInt) (setKey "sid" (.str p.sid) (setKey "sub" (.str p.sub) [])))))
  if p.is_refresh then setKey "jti" (.str p.jti) (setKey "type" (.str p.type) common)
  else setKey "role" (.str p.role) (setKey "tenant_id" (.str p.tenant_id) (setKey "email" (.str p.email) common))

def Encode (c : JwtCodec) (p : JwtPayload) (secret : Bytes) : Bytes :=
  let signing_input := base64UrlEncode kHeaderJson ++ dot :: base64UrlEncode (c.dump (claims p))
  signing_input ++ dot :: base64UrlEncode (c.hmac secret signing_input)

/-! ## Decode -/

/-- The text under `alg`, if the header is an object that has one. -/
def algorithm : Json → Option String
  | .obj h => match getKey "alg" h with
    | some (.str alg) => some alg
    | _ => none
  | _ => none

def checkHeader (c : JwtCodec) (header_json : Bytes) : Except AuthStatus Unit :=
  match c.parse header_json with
  | none => .error (unauthorized "bad jwt header json")
  | some h => if algorithm h = some "HS256" then .ok () else .error (unauthorized "unsupported jwt alg")

def checkSignature (c : JwtCodec) (signing_input : Bytes) (accept_secrets : List Bytes) (provided_sig : Bytes) :
    Except AuthStatus Unit :=
  if accept_secrets.any fun secret => c.hmac secret signing_input == provided_sig then .ok ()
  else .error (unauthorized "jwt signature mismatch")

/-- `c.value(key, "")`; none where it throws. -/
def textValue (c : Metadata) (key : String) : Option String :=
  match getKey key c with
  | none => some ""
  | some (.str s) => some s
  | some _ => none

/-- `c.value(key, static_cast<int64_t>(0))`. -/
def intValue (codec : JwtCodec) (c : Metadata) (key : String) : Option Int64 :=
  match getKey key c with
  | none => some 0
  | some (.int n) => some (.ofInt n)
  | some (.float q) => some (codec.toInt64 q)
  | some _ => none

/-- The claims of an object; `value` throws on anything else. -/
def readClaims (codec : JwtCodec) : Json → Option JwtPayload
  | .obj c => do
    let sub ← textValue c "sub"
    let sid ← textValue c "sid"
    let iat ← intValue codec c "iat"
    let exp ← intValue codec c "exp"
    let iss ← textValue c "iss"
    let aud ← textValue c "aud"
    let email ← textValue c "email"
    let tenant_id ← textValue c "tenant_id"
    let role ← textValue c "role"
    let type ← textValue c "type"
    let jti ← textValue c "jti"
    pure { sub, sid, iat, exp, iss, aud, email, tenant_id, role, type, jti }
  | _ => none

def readPayload (c : JwtCodec) (payload_json : Bytes) : Except AuthStatus JwtPayload :=
  match (c.parse payload_json).bind (readClaims c) with
  | none => .error (unauthorized "bad jwt payload json")
  | some p => .ok p

def checkExpiry (p : JwtPayload) (now_sec : Int64) : Except AuthStatus Unit :=
  if p.exp ≠ 0 ∧ p.exp ≤ now_sec then .error ⟨.kTokenExpired, "jwt expired"⟩ else .ok ()

def Decode (c : JwtCodec) (token : Bytes) (accept_secrets : List Bytes) (now_sec : Int64) :
    Except AuthStatus JwtPayload := do
  let parts ← (segments token).mapError unauthorized
  let header_json ← (base64UrlDecode parts.1).mapError unauthorized
  checkHeader c header_json
  let provided_sig ← (base64UrlDecode parts.2.2).mapError unauthorized
  checkSignature c (parts.1 ++ dot :: parts.2.1) accept_secrets provided_sig
  let payload_json ← (base64UrlDecode parts.2.1).mapError unauthorized
  let p ← readPayload c payload_json
  checkExpiry p now_sec
  pure p

/-! ## What is accepted -/

theorem mapError_eq_ok {ε ε' α : Type} {x : Except ε α} {f : ε → ε'} {a : α} : x.mapError f = .ok a ↔ x = .ok a := by
  cases x with
  | error e => simp [Except.mapError]
  | ok b => simp [Except.mapError]

variable {c : JwtCodec}

theorem checkHeader_eq_ok {header_json : Bytes} {a : Unit} :
    checkHeader c header_json = .ok a ↔ ∃ h, c.parse header_json = some h ∧ algorithm h = some "HS256" := by
  unfold checkHeader
  cases c.parse header_json with
  | none => simp
  | some h => simp

variable {accept_secrets : List Bytes} {p : JwtPayload} {now_sec : Int64}

theorem checkSignature_eq_ok {signing_input provided_sig : Bytes} {a : Unit} :
    checkSignature c signing_input accept_secrets provided_sig = .ok a ↔
      ∃ secret ∈ accept_secrets, c.hmac secret signing_input = provided_sig := by
  unfold checkSignature
  split
  · rename_i h
    simpa using h
  · rename_i h
    simpa using h

theorem readPayload_eq_ok {payload_json : Bytes} :
    readPayload c payload_json = .ok p ↔ ∃ j, c.parse payload_json = some j ∧ readClaims c j = some p := by
  rw [← Option.bind_eq_some_iff]
  unfold readPayload
  cases (c.parse payload_json).bind (readClaims c) with
  | none => simp
  | some q => simp

theorem checkExpiry_eq_ok {a : Unit} : checkExpiry p now_sec = .ok a ↔ p.exp = 0 ∨ now_sec < p.exp := by
  have hor : (p.exp = 0 ∨ now_sec < p.exp) ↔ ¬ (p.exp ≠ 0 ∧ p.exp ≤ now_sec) := by
    rw [not_and, Int64.not_le, ← or_iff_not_imp_left]
  unfold checkExpiry
  rw [hor]
  split
  · rename_i h
    simp [h]
  · rename_i h
    simp [h]

structure Accepted (c : JwtCodec) (token : Bytes) (accept_secrets : List Bytes) (now_sec : Int64) (p : JwtPayload)
    (parts : Bytes × Bytes × Bytes) : Prop where
  cut : segments token = .ok parts
  header : ∃ header_json h, base64UrlDecode parts.1 = .ok header_json ∧ c.parse header_json = some h ∧
    algorithm h = some "HS256"
  signed : ∃ provided_sig, base64UrlDecode parts.2.2 = .ok provided_sig ∧
    ∃ secret ∈ accept_secrets, c.hmac secret (parts.1 ++ dot :: parts.2.1) = provided_sig
  claims : ∃ payload_json j, base64UrlDecode parts.2.1 = .ok payload_json ∧ c.parse payload_json = some j ∧
    readClaims c j = some p
  valid : p.exp = 0 ∨ now_sec < p.exp

theorem Decode_eq_ok {token : Bytes} :
    Decode c token accept_secrets now_sec = .ok p ↔ ∃ parts, Accepted c token accept_secrets now_sec p parts := by
  unfold Decode
  simp only [bind_eq_ok, mapError_eq_ok, checkHeader_eq_ok, checkSignature_eq_ok, readPayload_eq_ok,
    checkExpiry_eq_ok]
  constructor
  · rintro ⟨parts, hcut, header_json, hheader, ⟨⟩, ⟨h, hparse, halg⟩, sig, hsig, ⟨⟩, hsigned, payload_json, hpayload, q,
      ⟨j, hj, hq⟩, ⟨⟩, hvalid, hpure⟩
    cases hpure
    exact ⟨parts, hcut, ⟨_, h, hheader, hparse, halg⟩, ⟨sig, hsig, hsigned⟩, ⟨_, j, hpayload, hj, hq⟩, hvalid⟩
  · rintro ⟨parts, hcut, ⟨header_json, h, hheader, hparse, halg⟩, ⟨sig, hsig, hsigned⟩,
      ⟨payload_json, j, hpayload, hj, hq⟩, hvalid⟩
    exact ⟨parts, hcut, header_json, hheader, (), ⟨h, hparse, halg⟩, sig, hsig, (), hsigned, payload_json, hpayload, p,
      ⟨j, hj, hq⟩, (), hvalid, rfl⟩

/-! ## Tokens of both kinds -/

/-- What a token keeps of a payload. -/
def JwtPayload.kept (p : JwtPayload) : JwtPayload :=
  if p.is_refresh then { p with email := "", tenant_id := "", role := "" } else { p with type := "", jti := "" }

theorem is_refresh_kept (p : JwtPayload) : p.kept.is_refresh = p.is_refresh := by
  unfold JwtPayload.kept
  split
  · rfl
  · rename_i h
    rw [Bool.eq_false_of_not_eq_true h]
    rfl

/-- The JSON of the object comes back with the same values. -/
def RoundTrips (c : JwtCodec) (m : Metadata) : Prop :=
  ∃ m', c.parse (c.dump m) = some (.obj m') ∧ ∀ key, getKey key m' = getKey key m

def ReadsHeader (c : JwtCodec) : Prop := ∃ h, c.parse kHeaderJson = some h ∧ algorithm h = some "HS256"

theorem readClaims_congr {m m' : Metadata} (h : ∀ key, getKey key m' = getKey key m) :
    readClaims c (.obj m') = readClaims c (.obj m) := by
  have htext : ∀ key, textValue m' key = textValue m key := fun key => by rw [textValue, textValue, h]
  have hint : ∀ key, intValue c m' key = intValue c m key := fun key => by rw [intValue, intValue, h]
  simp only [readClaims, htext, hint]

theorem getKey_nil (key : String) : getKey key [] = none := rfl

theorem readClaims_claims (p : JwtPayload) : readClaims c (.obj (claims p)) = some p.kept := by
  unfold claims JwtPayload.kept
  split
  · simp [readClaims, textValue, intValue, getKey_setKey, getKey_nil]
  · simp [readClaims, textValue, intValue, getKey_setKey, getKey_nil]

theorem segments_Encode (p : JwtPayload) (secret : Bytes) :
    segments (Encode c p secret) = .ok (base64UrlEncode kHeaderJson, base64UrlEncode (c.dump (claims p)),
      base64UrlEncode (c.hmac secret (base64UrlEncode kHeaderJson ++ dot :: base64UrlEncode (c.dump (claims p))))) := by
  let cd : Codec := ⟨c.hmac, fun _ => none, fun _ => none, []⟩
  have h : Encode c p secret = encode cd secret kHeaderJson (c.dump (claims p)) := rfl
  rw [h, segments_encode]

theorem Decode_Encode {secret : Bytes} (hheader : ReadsHeader c) (hclaims : RoundTrips c (claims p))
    (hsecret : secret ∈ accept_secrets) (hnow : now_sec < p.exp) :
    Decode c (Encode c p secret) accept_secrets now_sec = .ok p.kept := by
  obtain ⟨h, hparse, halg⟩ := hheader
  obtain ⟨m, hm, hkeys⟩ := hclaims
  have hexp : p.kept.exp = p.exp := by
    unfold JwtPayload.kept
    split <;> rfl
  refine Decode_eq_ok.mpr ⟨_, segments_Encode p secret, ⟨_, h, base64UrlDecode_encode _, hparse, halg⟩,
    ⟨_, base64UrlDecode_encode _, secret, hsecret, rfl⟩, ⟨_, _, base64UrlDecode_encode _, hm, ?_⟩, .inr ?_⟩
  · rw [readClaims_congr hkeys, readClaims_claims]
  · rwa [hexp]

theorem eq_of_dropWhile {l : Bytes} {b : UInt8} {rest : Bytes} (h : l.dropWhile (· ≠ dot) = b :: rest) :
    l = l.takeWhile (· ≠ dot) ++ dot :: rest ∧ dot ∉ l.takeWhile (· ≠ dot) := by
  have hb := List.head?_dropWhile_not (fun b => decide (b ≠ dot)) l
  rw [h] at hb
  obtain rfl : b = dot := by simpa using hb
  refine ⟨?_, fun hmem => ?_⟩
  · rw [← h, List.takeWhile_append_dropWhile]
  · exact absurd (List.mem_takeWhile_imp hmem) (by simp)

theorem eq_of_segments {token header payload sig : Bytes} (h : segments token = .ok (header, payload, sig)) :
    token = header ++ dot :: payload ++ dot :: sig ∧ dot ∉ header ∧ dot ∉ payload ∧ dot ∉ sig := by
  unfold segments at h
  split at h
  · cases h
  · rename_i hfirst
    obtain ⟨htoken, hheader⟩ := eq_of_dropWhile hfirst
    split at h
    · cases h
    · rename_i hsecond
      obtain ⟨hrest, hpayload⟩ := eq_of_dropWhile hsecond
      split_ifs at h with hdot
      cases h
      refine ⟨?_, hheader, hpayload, hdot⟩
      rw [List.append_assoc, List.cons_append, ← hrest]
      exact htoken

/-- A token of either kind comes back from `Decode` as what its kind keeps; the bytes of a base64 text come back; and a
token that is accepted is signed under an accepted secret and has not expired. -/
theorem jwt_round_trip (c : JwtCodec) :
    (∀ (p : JwtPayload) (secret : Bytes) (accept_secrets : List Bytes) (now_sec : Int64), ReadsHeader c →
      RoundTrips c (claims p) → secret ∈ accept_secrets → now_sec < p.exp →
      Decode c (Encode c p secret) accept_secrets now_sec = .ok p.kept ∧ p.kept.is_refresh = p.is_refresh) ∧
    (∀ data, base64UrlDecode (base64UrlEncode data) = .ok data) ∧
    (∀ (token : Bytes) (accept_secrets : List Bytes) (now_sec : Int64) (p : JwtPayload),
      Decode c token accept_secrets now_sec = .ok p →
      ∃ header payload sig provided_sig, token = header ++ dot :: payload ++ dot :: sig ∧
        (dot ∉ header ∧ dot ∉ payload ∧ dot ∉ sig) ∧ base64UrlDecode sig = .ok provided_sig ∧
        (∃ secret ∈ accept_secrets, provided_sig = c.hmac secret (header ++ dot :: payload)) ∧
        (p.exp = 0 ∨ now_sec < p.exp)) := by
  refine ⟨fun p secret accept_secrets now_sec hheader hclaims hsecret hnow =>
    ⟨Decode_Encode hheader hclaims hsecret hnow, is_refresh_kept p⟩, base64UrlDecode_encode, ?_⟩
  intro token accept_secrets now_sec p hp
  obtain ⟨⟨header, payload, sig⟩, hacc⟩ := Decode_eq_ok.mp hp
  obtain ⟨htoken, hdots⟩ := eq_of_segments hacc.cut
  obtain ⟨provided_sig, hsig, secret, hsecret, hsigned⟩ := hacc.signed
  exact ⟨header, payload, sig, provided_sig, htoken, hdots, hsig, ⟨secret, hsecret, hsigned.symm⟩, hacc.valid⟩

/-- An access token's payload, and its JSON. -/
def accessPayload : JwtPayload :=
  { sub := "usr_1", sid := "sess_1", iat := 10, exp := 910, email := "a@b.c", tenant_id := "t1", role := "owner" }

def accessJson : Bytes :=
  ("\x7b\"aud\":\"cortrix\",\"email\":\"a@b.c\",\"exp\":910,\"iat\":10,\"iss\":\"cortrix-auth\",\"role\":\"owner\"," ++
    "\"sid\":\"sess_1\",\"sub\":\"usr_1\",\"tenant_id\":\"t1\"\x7d").toUTF8.toList

/-- The JSON of the two texts, and a digest of 32 bytes. -/
def accessCodec : JwtCodec where
  hmac _ _ := List.replicate 32 0
  dump _ := accessJson
  parse text :=
    if text = accessJson then some (.obj (claims accessPayload))
    else if text = kHeaderJson then some (.obj [("alg", .str "HS256"), ("typ", .str "JWT")])
    else none
  toInt64 _ := 0

theorem jwt_round_trip_access :
    Decode accessCodec (Encode accessCodec accessPayload [1, 2, 3]) [[7], [1, 2, 3]] 100 = .ok accessPayload.kept ∧
      accessPayload.kept.is_refresh = accessPayload.is_refresh := by
  have hheader : kHeaderJson ≠ accessJson := by decide +kernel
  refine (jwt_round_trip accessCodec).1 accessPayload [1, 2, 3] [[7], [1, 2, 3]] 100
    ⟨.obj [("alg", .str "HS256"), ("typ", .str "JWT")], ?_, rfl⟩ ⟨claims accessPayload, if_pos rfl, fun _ => rfl⟩
    (by simp) (by decide)
  exact (if_neg hheader).trans (if_pos rfl)

/-! ## What the sessions read -/

def JwtPayload.session (p : JwtPayload) : Payload where
  sub := p.sub.toUTF8.toList
  sid := p.sid.toUTF8.toList
  exp := p.exp.toInt
  type := p.type.toUTF8.toList
  jti := p.jti.toUTF8.toList

/-- The same codec as the sessions' model has it. -/
def JwtCodec.session (c : JwtCodec) (accept_secrets : List Bytes) : Codec where
  hmac := c.hmac
  parseHeader text := (c.parse text).map fun h => algorithm h = some "HS256"
  parseClaims text := ((c.parse text).bind (readClaims c)).map JwtPayload.session
  acceptSecrets := accept_secrets

/-- What `Decode` accepts, the sessions accept too, with the claims they look at. -/
theorem decode_of_Decode {token : Bytes} (h : Decode c token accept_secrets now_sec = .ok p) :
    decode (c.session accept_secrets) token now_sec.toInt = .ok p.session := by
  obtain ⟨⟨header, payload, sig⟩, hacc⟩ := Decode_eq_ok.mp h
  obtain ⟨header_json, hj, hheader, hparse, halg⟩ := hacc.header
  obtain ⟨provided_sig, hsig, secret, hsecret, hsigned⟩ := hacc.signed
  obtain ⟨payload_json, j, hpayload, hclaims, hread⟩ := hacc.claims
  have hp : (c.session accept_secrets).parseHeader header_json = some true := by
    simp [JwtCodec.session, hparse, halg]
  have hs : ((c.session accept_secrets).acceptSecrets.any fun secret =>
      (c.session accept_secrets).hmac secret (header ++ dot :: payload) == provided_sig) = true :=
    List.any_eq_true.mpr ⟨secret, hsecret, beq_iff_eq.mpr hsigned⟩
  have hc : (c.session accept_secrets).parseClaims payload_json = some p.session := by
    simp [JwtCodec.session, hclaims, hread]
  refine decode_eq_ok.mpr ⟨?_, ?_⟩
  · unfold payloadOf
    rw [hacc.cut]
    simp only [bind, Except.bind, hheader, hp, hsig, hs, hpayload, hc]
    rfl
  · rintro ⟨hne, hle⟩
    rcases hacc.valid with hzero | hlt
    · exact hne (by rw [JwtPayload.session, hzero]; rfl)
    · exact absurd hle (not_le.mpr (Int64.lt_iff_toInt_lt.mp hlt))

end Cortrix.Auth.JwtUtils
