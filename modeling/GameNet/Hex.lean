import GameNet.Token

/-!
# GameNet.Hex

The hexadecimal text of 32 bytes in the relay's state file (`hex_32`, `parse_hex_32` of
`crates/server/src/lease_store.rs`). Writing uses lowercase digits; reading goes through
`u8::from_str_radix`, which also takes uppercase digits and a leading `+`.
-/

namespace GameNet

/-- `char::to_digit(16)` -/
def hexDigit (c : Char) : Option Nat :=
  if '0' ≤ c ∧ c ≤ '9' then some (c.toNat - '0'.toNat)
  else if 'a' ≤ c ∧ c ≤ 'f' then some (c.toNat - 'a'.toNat + 10)
  else if 'A' ≤ c ∧ c ≤ 'F' then some (c.toNat - 'A'.toNat + 10)
  else none

/-- The digits of `u8::from_str_radix(_, 16)`, from the value read so far. -/
def readDigits : Nat → List Char → Option UInt8
  | acc, [] => some (UInt8.ofNat acc)
  | acc, c :: rest =>
    match hexDigit c with
    | none => none
    | some d => if acc * 16 + d < 256 then readDigits (acc * 16 + d) rest else none

/-- `u8::from_str_radix(_, 16)`: one sign may come before the digits, and there is a digit. -/
def fromStrRadix16 : List Char → Option UInt8
  | [] => none
  | ['+'] => none
  | '+' :: rest => readDigits 0 rest
  | chars => readDigits 0 chars

inductive HexError where
  | notSixtyFour
  | invalidDigit

def HexError.message : HexError → String
  | .notSixtyFour => "Expected 64 hex characters"
  | .invalidDigit => "invalid digit found in string"

/-- `parse_hex_32`: 64 ASCII characters, two for each byte. -/
def parseHex32 (hex : String) : Except HexError Bytes32 :=
  if hex.toList.length = 64 ∧ hex.toList.all (fun c => decide (c.toNat < 128)) = true then
    List.Vector.mOfFn fun i : Fin 32 =>
      match fromStrRadix16 ((hex.toList.drop (2 * i.val)).take 2) with
      | none => .error .invalidDigit
      | some byte => .ok byte
  else .error .notSixtyFour

def hexChar (d : Nat) : Char :=
  if d < 10 then Char.ofNat ('0'.toNat + d) else Char.ofNat ('a'.toNat + (d - 10))

/-- `{byte:02x}` -/
def hexByte (byte : UInt8) : List Char := [hexChar (byte.toNat / 16), hexChar (byte.toNat % 16)]

def hex32 (bytes : Bytes32) : String := String.ofList (bytes.toList.flatMap hexByte)

theorem hexDigit_hexChar {d : Nat} (h : d < 16) : hexDigit (hexChar d) = some d := by
  rcases d with _ | _ | _ | _ | _ | _ | _ | _ | _ | _ | _ | _ | _ | _ | _ | _ | d
  all_goals first | rfl | omega

theorem hexChar_lower {d : Nat} (h : d < 16) :
    ('0' ≤ hexChar d ∧ hexChar d ≤ '9') ∨ ('a' ≤ hexChar d ∧ hexChar d ≤ 'f') := by
  rcases d with _ | _ | _ | _ | _ | _ | _ | _ | _ | _ | _ | _ | _ | _ | _ | _ | d
  all_goals first | decide | omega

theorem hexChar_ascii {d : Nat} (h : d < 16) : (hexChar d).toNat < 128 := by
  have hle : ∀ {c : Char}, hexChar d ≤ c → (hexChar d).toNat ≤ c.toNat := fun hc =>
    UInt32.le_iff_toNat_le.mp (Char.le_def.mp hc)
  rcases hexChar_lower h with ⟨-, hc⟩ | ⟨-, hc⟩
  · exact Nat.lt_of_le_of_lt (hle hc) (by decide)
  · exact Nat.lt_of_le_of_lt (hle hc) (by decide)

theorem hexChar_ne_plus {d : Nat} (h : d < 16) : hexChar d ≠ '+' := by
  intro hplus
  have hlower := hexChar_lower h
  rw [hplus] at hlower
  exact absurd hlower (by decide)

/-- What holds of the sixteen digits holds of every character of a fingerprint. -/
theorem forall_mem_hex32 {P : Char → Prop} (h : ∀ {d : Nat}, d < 16 → P (hexChar d))
    (bytes : Bytes32) : ∀ c ∈ (hex32 bytes).toList, P c := by
  intro c hc
  rw [hex32, String.toList_ofList] at hc
  obtain ⟨byte, -, hc⟩ := List.mem_flatMap.mp hc
  have hb := byte.toNat_lt
  simp only [hexByte, List.mem_cons, List.not_mem_nil, or_false] at hc
  rcases hc with rfl | rfl
  · exact h (by omega)
  · exact h (by omega)

theorem fromStrRadix16_hexByte (byte : UInt8) : fromStrRadix16 (hexByte byte) = some byte := by
  have hb := byte.toNat_lt
  have h₁ : byte.toNat / 16 < 16 := by omega
  have h₂ : byte.toNat % 16 < 16 := by omega
  have hne := hexChar_ne_plus h₁
  have hsum : byte.toNat / 16 * 16 + byte.toNat % 16 = byte.toNat := by omega
  unfold fromStrRadix16 hexByte
  split
  · rename_i heq; simp at heq
  · rename_i heq; simp at heq
  · rename_i heq
    exact absurd (List.cons.inj heq).1 hne
  · simp only [readDigits, hexDigit_hexChar h₁, hexDigit_hexChar h₂, Nat.zero_mul, Nat.zero_add]
    rw [if_pos (by omega), if_pos (by omega), hsum, UInt8.ofNat_toNat]

theorem length_flatMap_hexByte (bytes : List UInt8) :
    (bytes.flatMap hexByte).length = 2 * bytes.length := by
  induction bytes with
  | nil => rfl
  | cons byte rest ih =>
    simp only [List.flatMap_cons, List.length_append, ih, List.length_cons, hexByte,
      List.length_nil]
    omega

/-- The two characters at position `2 * i` are those of byte `i`. -/
theorem take_drop_flatMap_hexByte (bytes : List UInt8) (i : Nat) (h : i < bytes.length) :
    ((bytes.flatMap hexByte).drop (2 * i)).take 2 = hexByte bytes[i] := by
  induction bytes generalizing i with
  | nil => simp at h
  | cons byte rest ih =>
    cases i with
    | zero => simp [hexByte]
    | succ i =>
      have hi : 2 * (i + 1) = 2 * i + 1 + 1 := by omega
      rw [List.flatMap_cons, hi]
      simpa [hexByte] using ih i (by simpa using h)

/-- Every fingerprint reads back as the bytes it was written from. -/
theorem parseHex32_hex32 (bytes : Bytes32) : parseHex32 (hex32 bytes) = .ok bytes := by
  have hlen : (bytes.toList.flatMap hexByte).length = 64 := by
    rw [length_flatMap_hexByte, List.Vector.toList_length]
  have hascii : (bytes.toList.flatMap hexByte).all (fun c => decide (c.toNat < 128)) = true := by
    have h := forall_mem_hex32 (P := fun c => c.toNat < 128) hexChar_ascii bytes
    rw [hex32, String.toList_ofList] at h
    exact List.all_eq_true.mpr fun c hc => decide_eq_true (h c hc)
  simp only [parseHex32, hex32, String.toList_ofList, hlen, hascii, and_self, if_true]
  have hget : ∀ i : Fin 32,
      fromStrRadix16 (((bytes.toList.flatMap hexByte).drop (2 * i.val)).take 2) =
        some (bytes.get i) := by
    intro i
    have hi : i.val < bytes.toList.length := by rw [List.Vector.toList_length]; exact i.isLt
    rw [take_drop_flatMap_hexByte _ _ hi, fromStrRadix16_hexByte]
    rfl
  simp only [hget]
  have hpure := List.Vector.mOfFn_pure (m := Except HexError) fun i => bytes.get i
  rw [List.Vector.ofFn_get] at hpure
  exact hpure

end GameNet
