import Mathlib.Data.List.TakeWhile
import Cortrix.Lib.Bytes
import Cortrix.Lib.Table

/-!
# The tables of the accounts
-/

namespace Cortrix.Auth
open Lib

inductive UserStatus
  | active | locked | disabled
  deriving DecidableEq

structure User where
  id : Bytes
  email : Bytes
  passwordHash : Bytes
  displayName : Bytes
  emailVerified : Bool := false
  role : Bytes := []
  status : UserStatus := .active
  lockedUntil : Option Int := none
  loginAttempts : Int := 0
  updatedAt : Int

inductive CodeType
  | emailVerify | passwordReset
  deriving DecidableEq

structure VerificationCode where
  id : Nat
  email : Bytes
  code : Bytes
  type : CodeType
  expiresAt : Int
  used : Bool := false
  createdAt : Int

structure RefreshToken where
  jti : Bytes
  userId : Bytes
  tokenHash : Bytes
  expiresAt : Int
  revoked : Bool := false

structure Tables where
  users : List User := []
  codes : List VerificationCode := []
  refreshTokens : List RefreshToken := []

/-! ## Text -/

def quote : UInt8 := 0x27

/-- `c_str()` : up to the first NUL. -/
def cText (s : Bytes) : Bytes := s.takeWhile (· ≠ 0)

/-- Behind an opening quote: the literal and what follows its closing quote; a doubled quote stands for one. -/
def lexString : Bytes → Option (Bytes × Bytes)
  | [] => none
  | [b] => if b = quote then some ([], []) else none
  | b :: b' :: rest =>
    if b = quote then
      if b' = quote then (lexString rest).map fun r => (quote :: r.1, r.2) else some ([], b' :: rest)
    else (lexString (b' :: rest)).map fun r => (b :: r.1, r.2)

def Plain (s : Bytes) : Prop := quote ∉ s ∧ 0 ∉ s

instance (s : Bytes) : Decidable (Plain s) := inferInstanceAs (Decidable (_ ∧ _))

theorem cText_plain {s : Bytes} (h : Plain s) : cText s = s := by
  unfold cText
  rw [List.takeWhile_eq_self_iff]
  intro b hb
  have hne : b ≠ 0 := fun hzero => h.2 (hzero ▸ hb)
  simp [hne]

theorem lexString_plain {s : Bytes} (h : Plain s) (rest : Bytes) (hrest : rest.head? ≠ some quote) :
    lexString (s ++ quote :: rest) = some (s, rest) := by
  induction s with
  | nil =>
    cases rest with
    | nil => simp [lexString]
    | cons b rest =>
      have hb : b ≠ quote := fun hq => hrest (by rw [hq]; rfl)
      simp [lexString, hb]
  | cons b s ih =>
    have hb : b ≠ quote := fun hq => h.1 (hq ▸ List.mem_cons_self)
    have hplain : Plain s := ⟨fun hq => h.1 (List.mem_cons_of_mem _ hq), fun hz => h.2 (List.mem_cons_of_mem _ hz)⟩
    have htail := ih hplain
    cases s with
    | nil =>
      rw [List.nil_append] at htail
      rw [List.singleton_append, lexString, if_neg hb, htail]
      rfl
    | cons b' s =>
      rw [List.cons_append] at htail
      rw [List.cons_append, List.cons_append, lexString, if_neg hb, htail]
      rfl

/-! ## The statement built from the email -/

/-- `UPDATE refresh_tokens SET revoked=1 WHERE revoked=0 AND user_id=(SELECT id FROM users WHERE email=..)`. -/
def revokeOf (email : Bytes) (t : Tables) : Tables :=
  let userId := (lookup User.email email t.users).map User.id
  let live : RefreshToken → Bool := fun r => !r.revoked && userId == some r.userId
  { t with refreshTokens := updateWhere live (fun r => { r with revoked := true }) t.refreshTokens }

/-- That statement with the email spliced in between quotes. A literal that does not end fails the statement; `other` is
what SQLite makes of the text when the literal ends inside the email. -/
def revokeTokens (other : Bytes → Tables → Tables) (email : Bytes) (t : Tables) : Tables :=
  match lexString (cText (email ++ [quote, 0x29])) with
  | none => t
  | some (literal, rest) => if rest = [0x29] then revokeOf literal t else other email t

/-- The literal does not end inside the email. -/
def StaysLiteral (email : Bytes) : Prop :=
  ((lexString (cText (email ++ [quote, 0x29]))).all fun r => r.2 = [0x29]) = true

instance (email : Bytes) : Decidable (StaysLiteral email) := inferInstanceAs (Decidable (_ = true))

theorem revokeTokens_users {email : Bytes} (h : StaysLiteral email) (other : Bytes → Tables → Tables) (t : Tables) :
    (revokeTokens other email t).users = t.users := by
  unfold StaysLiteral at h
  unfold revokeTokens
  cases hlex : lexString (cText (email ++ [quote, 0x29])) with
  | none => rfl
  | some r =>
    have hrest : r.2 = [0x29] := by simpa [hlex] using h
    simp [hrest, revokeOf]

theorem lexString_cText_plain {email : Bytes} (h : Plain email) :
    lexString (cText (email ++ [quote, 0x29])) = some (email, [0x29]) := by
  have hplain : cText (email ++ [quote, 0x29]) = email ++ [quote, 0x29] := by
    unfold cText
    rw [List.takeWhile_eq_self_iff]
    intro b hb
    rcases List.mem_append.mp hb with hb | hb
    · have hne : b ≠ 0 := fun hzero => h.2 (hzero ▸ hb)
      simp [hne]
    · simp only [quote, List.mem_cons, List.not_mem_nil, or_false] at hb
      rcases hb with rfl | rfl <;> decide
  rw [hplain, lexString_plain h [0x29] (by decide)]

theorem revokeTokens_plain {email : Bytes} (h : Plain email) (other : Bytes → Tables → Tables) (t : Tables) :
    revokeTokens other email t = revokeOf email t := by
  unfold revokeTokens
  rw [lexString_cText_plain h]
  exact if_pos rfl

end Cortrix.Auth
