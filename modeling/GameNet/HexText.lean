import GameNet.Identity
import GameNet.LeaseStore
import Mathlib.Tactic.IntervalCases

/-!
# GameNet.HexText

What is read as 32 bytes in hexadecimal: recovery codes (`parse_recovery_code`) and the texts of
the state file (`parse_hex_32`).

Both read two characters at a time with `u8::from_str_radix`, which takes a sign. So beside the
texts of 64 digits they accept those in which some pair is a `+` and one digit (`Signed`), and a
state file with such texts is loaded. Everything else is as it should be (`hex_read`).
-/

namespace GameNet

/-- `0-9`, `a-f` or `A-F` -/
def IsHexDigit (c : Char) : Prop :=
  ('0' ≤ c ∧ c ≤ '9') ∨ ('a' ≤ c ∧ c ≤ 'f') ∨ ('A' ≤ c ∧ c ≤ 'F')

/-- Exactly 64 digits. -/
def IsHex64 (text : String) : Prop := text.toList.length = 64 ∧ ∀ c ∈ text.toList, IsHexDigit c

/-- The characters of byte `i`. -/
def pair (text : String) (i : Nat) : List Char := (text.toList.drop (2 * i)).take 2

def DigitPair (p : List Char) : Prop := ∃ c d, p = [c, d] ∧ IsHexDigit c ∧ IsHexDigit d

def SignedPair (p : List Char) : Prop := ∃ d, p = ['+', d] ∧ IsHexDigit d

/-- 32 pairs of digits, but for one or more that are a `+` and a digit. -/
def Signed (text : String) : Prop :=
  text.toList.length = 64 ∧ (∀ i < 32, DigitPair (pair text i) ∨ SignedPair (pair text i)) ∧
    ∃ i < 32, SignedPair (pair text i)

/-- Each byte is the value of its two digits. -/
def Denotes (text : String) (bytes : Bytes32) : Prop :=
  ∀ i : Fin 32, ∃ c d x y, pair text i = [c, d] ∧ hexDigit c = some x ∧ hexDigit d = some y ∧
    (bytes.get i).toNat = 16 * x + y

/-- `to_lowercase` of an ASCII text. -/
def lowercase (text : String) : String := String.ofList (text.toList.map Char.toLower)

/-- A reader accepts 64 digits and nothing else, returns what they denote, and this is written as
the text in lower case. -/
structure ReadsHex (text : String) (result : Option Bytes32) : Prop where
  accepts : result.isSome ↔ IsHex64 text
  denotes : ∀ bytes, result = some bytes → Denotes text bytes
  prints : ∀ bytes, result = some bytes → hex32 bytes = lowercase text

/-! ## Digits -/

section digits

variable {c d : Char} {x y : Nat} {p : List Char} {byte : UInt8}

theorem IsHexDigit.mem (h : IsHexDigit c) : c ∈ "0123456789abcdefABCDEF".toList := by
  have hc : Char.ofNat c.toNat = c := Char.ofNat_toNat c
  rw [← hc]
  rcases h with ⟨h₁, h₂⟩ | ⟨h₁, h₂⟩ | ⟨h₁, h₂⟩
  · have h₁ : 48 ≤ c.toNat := h₁
    have h₂ : c.toNat ≤ 57 := h₂
    generalize c.toNat = n at h₁ h₂
    interval_cases n <;> decide
  · have h₁ : 97 ≤ c.toNat := h₁
    have h₂ : c.toNat ≤ 102 := h₂
    generalize c.toNat = n at h₁ h₂
    interval_cases n <;> decide
  · have h₁ : 65 ≤ c.toNat := h₁
    have h₂ : c.toNat ≤ 70 := h₂
    generalize c.toNat = n at h₁ h₂
    interval_cases n <;> decide

/-- What is true of each of the digits. -/
theorem IsHexDigit.of_all (q : Char → Prop) [DecidablePred q] (h : IsHexDigit c)
    (hq : ("0123456789abcdefABCDEF".toList.all fun c => decide (q c)) = true) : q c :=
  of_decide_eq_true (List.all_eq_true.mp hq c h.mem)

/-- The value of a digit, which is written in lower case. -/
theorem IsHexDigit.value (h : IsHexDigit c) :
    ∃ x, hexDigit c = some x ∧ x < 16 ∧ hexChar x = c.toLower := by
  obtain ⟨x, hx, hv, hl⟩ :=
    h.of_all (fun c => ∃ x : Nat, x < 16 ∧ hexDigit c = some x ∧ hexChar x = c.toLower) (by decide)
  exact ⟨x, hv, hx, hl⟩

theorem IsHexDigit.ascii (h : IsHexDigit c) : c.toNat < 128 :=
  h.of_all (fun c => c.toNat < 128) (by decide)

theorem IsHexDigit.ne_plus (h : IsHexDigit c) : c ≠ '+' := h.of_all (fun c => c ≠ '+') (by decide)

theorem isHexDigit_of_hexDigit (h : hexDigit c = some x) : IsHexDigit c := by
  unfold hexDigit at h
  split at h
  · exact .inl ‹_›
  · split at h
    · exact .inr (.inl ‹_›)
    · split at h
      · exact .inr (.inr ‹_›)
      · cases h

theorem readDigits_two (hx : hexDigit c = some x) (hy : hexDigit d = some y) (h₁ : x < 16)
    (h₂ : y < 16) : readDigits 0 [c, d] = some (UInt8.ofNat (16 * x + y)) := by
  have hsum : x * 16 + y = 16 * x + y := by omega
  simp only [readDigits, hx, hy, Nat.zero_mul, Nat.zero_add]
  rw [if_pos (by omega), if_pos (by omega), hsum]

theorem fromStrRadix16_of_ne (h : c ≠ '+') : fromStrRadix16 [c, d] = readDigits 0 [c, d] := by
  unfold fromStrRadix16
  split
  · rename_i heq; cases heq
  · rename_i heq; cases heq
  · rename_i heq
    exact absurd (List.cons.inj heq).1 h
  · rfl

theorem DigitPair.reads (h : DigitPair p) :
    ∃ c d x y, p = [c, d] ∧ hexDigit c = some x ∧ hexDigit d = some y ∧ x < 16 ∧ y < 16 ∧
      hexChar x = c.toLower ∧ hexChar y = d.toLower ∧
      fromStrRadix16 p = some (UInt8.ofNat (16 * x + y)) := by
  obtain ⟨c, d, rfl, hc, hd⟩ := h
  obtain ⟨x, hx, hx', hlx⟩ := hc.value
  obtain ⟨y, hy, hy', hly⟩ := hd.value
  refine ⟨c, d, x, y, rfl, hx, hy, hx', hy', hlx, hly, ?_⟩
  rw [fromStrRadix16_of_ne hc.ne_plus]
  exact readDigits_two hx hy hx' hy'

theorem SignedPair.reads (h : SignedPair p) : ∃ byte, fromStrRadix16 p = some byte := by
  obtain ⟨d, rfl, hd⟩ := h
  obtain ⟨y, hy, hy', -⟩ := hd.value
  refine ⟨UInt8.ofNat y, ?_⟩
  have hlt : y < 256 := by omega
  simp only [fromStrRadix16, readDigits, hy, Nat.zero_mul, Nat.zero_add, hlt, if_true]

/-- `from_str_radix` takes two digits, or a sign and a digit. -/
theorem digits_of_reads (hp : p.length = 2) (h : fromStrRadix16 p = some byte) :
    DigitPair p ∨ SignedPair p := by
  obtain ⟨c, d, rfl⟩ := List.length_eq_two.mp hp
  by_cases hc : c = '+'
  · subst hc
    simp only [fromStrRadix16, readDigits] at h
    split at h
    · cases h
    · rename_i hd
      exact .inr ⟨d, rfl, isHexDigit_of_hexDigit hd⟩
  · rw [fromStrRadix16_of_ne hc] at h
    simp only [readDigits] at h
    split at h
    · cases h
    · rename_i hc'
      split at h
      · split at h
        · cases h
        · rename_i hd
          exact .inl ⟨c, d, rfl, isHexDigit_of_hexDigit hc', isHexDigit_of_hexDigit hd⟩
      · cases h

/-- A sign is no digit. -/
theorem SignedPair.not_digitPair (h : SignedPair p) : ¬DigitPair p := by
  obtain ⟨d, rfl, -⟩ := h
  intro h
  obtain ⟨c, e, heq, hc, -⟩ := h
  exact hc.ne_plus (List.cons.inj heq).1.symm

end digits

/-! ## Texts -/

section texts

variable {text : String} {bytes : Bytes32} {c : Char} {i : Nat}

theorem length_pair (hlen : text.toList.length = 64) (hi : i < 32) :
    (pair text i).length = 2 := by
  rw [pair, List.length_take, List.length_drop, hlen]
  omega

theorem getElem?_pair (text : String) (k : Nat) :
    (pair text (k / 2))[k % 2]? = text.toList[k]? := by
  have hk : 2 * (k / 2) + k % 2 = k := by omega
  have hlt : k % 2 < 2 := by omega
  rw [pair, List.getElem?_take_of_lt hlt, List.getElem?_drop, hk]

theorem mem_pair (hlen : text.toList.length = 64) (h : c ∈ text.toList) :
    ∃ i < 32, c ∈ pair text i := by
  obtain ⟨k, hk, rfl⟩ := List.mem_iff_getElem.mp h
  refine ⟨k / 2, by omega, List.mem_iff_getElem?.mpr ⟨k % 2, ?_⟩⟩
  rw [getElem?_pair, List.getElem?_eq_getElem hk]

theorem mem_of_mem_pair (h : c ∈ pair text i) : c ∈ text.toList :=
  List.mem_of_mem_drop (List.mem_of_mem_take h)

/-- A text is its pairs. -/
theorem eq_of_pairs {other : String} (hlen : text.toList.length = 64)
    (hother : other.toList.length = 64) (h : ∀ i < 32, pair text i = pair other i) :
    text = other := by
  apply String.toList_injective
  apply List.ext_getElem?
  intro k
  by_cases hk : k < 64
  · rw [← getElem?_pair text k, ← getElem?_pair other k, h (k / 2) (by omega)]
  · rw [List.getElem?_eq_none (by omega), List.getElem?_eq_none (by omega)]

theorem isHex64_iff :
    IsHex64 text ↔ text.toList.length = 64 ∧ ∀ i < 32, DigitPair (pair text i) := by
  constructor
  · rintro ⟨hlen, h⟩
    refine ⟨hlen, fun i hi => ?_⟩
    obtain ⟨c, d, hp⟩ := List.length_eq_two.mp (length_pair hlen hi)
    have hmem : ∀ e ∈ pair text i, IsHexDigit e := fun e he => h e (mem_of_mem_pair he)
    rw [hp] at hmem ⊢
    exact ⟨c, d, rfl, hmem c (by simp), hmem d (by simp)⟩
  · rintro ⟨hlen, h⟩
    refine ⟨hlen, fun c hc => ?_⟩
    obtain ⟨i, hi, hc⟩ := mem_pair hlen hc
    obtain ⟨d, e, hp, hd, he⟩ := h i hi
    rw [hp] at hc
    simp only [List.mem_cons, List.not_mem_nil, or_false] at hc
    rcases hc with rfl | rfl
    · exact hd
    · exact he

theorem Signed.not_isHex64 (h : Signed text) : ¬IsHex64 text := by
  obtain ⟨-, -, i, hi, hs⟩ := h
  intro h
  exact hs.not_digitPair ((isHex64_iff.mp h).2 i hi)

/-- A reading of all positions succeeds if each does. -/
theorem mOfFn_eq_ok {α ε : Type} {n : Nat} {f : Fin n → Except ε α} {v : List.Vector α n} :
    List.Vector.mOfFn f = .ok v ↔ ∀ i, f i = .ok (v.get i) := by
  induction n with
  | zero =>
    rw [List.Vector.eq_nil v]
    exact ⟨fun _ i => i.elim0, fun _ => rfl⟩
  | succ n ih =>
    constructor
    · intro h
      simp only [List.Vector.mOfFn] at h
      cases h₀ : f 0 with
      | error e => rw [h₀] at h; cases h
      | ok a =>
        rw [h₀] at h
        cases h₁ : List.Vector.mOfFn fun i => f i.succ with
        | error e =>
          simp only [bind, Except.bind, h₁] at h
          cases h
        | ok w =>
          simp only [bind, Except.bind, h₁, pure, Except.pure, Except.ok.injEq] at h
          subst h
          intro i
          cases i using Fin.cases with
          | zero => simpa using h₀
          | succ i => simpa using ih.mp h₁ i
    · intro h
      have h₁ : (List.Vector.mOfFn fun i => f i.succ) = .ok v.tail :=
        ih.mpr fun i => by rw [h, List.Vector.get_tail_succ]
      simp only [List.Vector.mOfFn, h 0, h₁, bind, Except.bind, pure, Except.pure]
      rw [List.Vector.get_zero, List.Vector.cons_head_tail]

/-- What is accepted is 64 characters, two for each byte. -/
theorem parseHex32_eq_ok :
    parseHex32 text = .ok bytes ↔ text.toList.length = 64 ∧
      ∀ i : Fin 32, fromStrRadix16 (pair text i) = some (bytes.get i) := by
  unfold parseHex32
  split
  · rename_i h
    rw [mOfFn_eq_ok]
    refine (forall_congr' fun i => ?_).trans (and_iff_right h.1).symm
    unfold pair
    split
    · rename_i hnone
      simp [hnone]
    · rename_i hsome
      simp [hsome]
  · rename_i hno
    constructor
    · intro h; cases h
    · rintro ⟨hlen, hv⟩
      refine absurd ⟨hlen, List.all_eq_true.mpr fun c hc => decide_eq_true ?_⟩ hno
      obtain ⟨i, hi, hc⟩ := mem_pair hlen hc
      have hplus : ('+' : Char).toNat < 128 := by decide
      rcases digits_of_reads (length_pair hlen hi) (hv ⟨i, hi⟩) with
        ⟨d, e, hp, hd, he⟩ | ⟨e, hp, he⟩
      · rw [hp] at hc
        simp only [List.mem_cons, List.not_mem_nil, or_false] at hc
        rcases hc with rfl | rfl
        · exact hd.ascii
        · exact he.ascii
      · rw [hp] at hc
        simp only [List.mem_cons, List.not_mem_nil, or_false] at hc
        rcases hc with rfl | rfl
        · exact hplus
        · exact he.ascii

/-- What is accepted is 64 digits, or such pairs of which some have a sign. -/
theorem parseHex32_ok_iff :
    (∃ bytes, parseHex32 text = .ok bytes) ↔ IsHex64 text ∨ Signed text := by
  constructor
  · rintro ⟨bytes, h⟩
    obtain ⟨hlen, h⟩ := parseHex32_eq_ok.mp h
    have hpairs : ∀ i < 32, DigitPair (pair text i) ∨ SignedPair (pair text i) :=
      fun i hi => digits_of_reads (length_pair hlen hi) (h ⟨i, hi⟩)
    by_cases hs : ∃ i < 32, SignedPair (pair text i)
    · exact .inr ⟨hlen, hpairs, hs⟩
    · refine .inl (isHex64_iff.mpr ⟨hlen, fun i hi => ?_⟩)
      exact (hpairs i hi).resolve_right fun hp => hs ⟨i, hi, hp⟩
  · intro h
    have hread : text.toList.length = 64 ∧
        ∀ i : Fin 32, ∃ byte, fromStrRadix16 (pair text i) = some byte := by
      rcases h with h | ⟨hlen, hpairs, -⟩
      · obtain ⟨hlen, hpairs⟩ := isHex64_iff.mp h
        refine ⟨hlen, fun i => ?_⟩
        obtain ⟨c, d, x, y, -, -, -, -, -, -, -, hr⟩ := (hpairs i i.isLt).reads
        exact ⟨_, hr⟩
      · refine ⟨hlen, fun i => ?_⟩
        rcases hpairs i i.isLt with hp | hp
        · obtain ⟨c, d, x, y, -, -, -, -, -, -, -, hr⟩ := hp.reads
          exact ⟨_, hr⟩
        · exact hp.reads
    obtain ⟨hlen, hread⟩ := hread
    choose byte hbyte using hread
    refine ⟨List.Vector.ofFn byte, parseHex32_eq_ok.mpr ⟨hlen, fun i => ?_⟩⟩
    rw [List.Vector.get_ofFn]
    exact hbyte i

theorem parseHex32_denotes (h : parseHex32 text = .ok bytes) (hx : IsHex64 text) :
    Denotes text bytes := by
  intro i
  obtain ⟨-, hread⟩ := parseHex32_eq_ok.mp h
  obtain ⟨c, d, x, y, hp, hc, hd, hx, hy, -, -, hr⟩ := ((isHex64_iff.mp hx).2 i i.isLt).reads
  have hbyte : UInt8.ofNat (16 * x + y) = bytes.get i := by
    have h := hread i
    rw [hr] at h
    exact Option.some.inj h
  have hlt : 16 * x + y < 256 := by omega
  refine ⟨c, d, x, y, hp, hc, hd, ?_⟩
  rw [← hbyte, UInt8.toNat_ofNat_of_lt' hlt]

theorem pair_hex32 (bytes : Bytes32) (i : Fin 32) :
    pair (hex32 bytes) i = hexByte (bytes.get i) := by
  have hi : i.val < bytes.toList.length := by rw [bytes.toList_length]; exact i.isLt
  rw [pair, hex32, String.toList_ofList, take_drop_flatMap_hexByte _ _ hi]
  rfl

theorem length_hex32 (bytes : Bytes32) : (hex32 bytes).toList.length = 64 := by
  rw [hex32, String.toList_ofList, length_flatMap_hexByte, bytes.toList_length]

theorem pair_lowercase (text : String) (i : Nat) :
    pair (lowercase text) i = (pair text i).map Char.toLower := by
  rw [pair, lowercase, String.toList_ofList, ← List.map_drop, ← List.map_take, pair]

theorem parseHex32_prints (h : parseHex32 text = .ok bytes) (hx : IsHex64 text) :
    hex32 bytes = lowercase text := by
  have hlen : (lowercase text).toList.length = 64 := by
    rw [lowercase, String.toList_ofList, List.length_map, hx.1]
  refine eq_of_pairs (length_hex32 bytes) hlen fun i hi => ?_
  obtain ⟨-, hread⟩ := parseHex32_eq_ok.mp h
  obtain ⟨c, d, x, y, hp, -, -, hx, hy, hlx, hly, hr⟩ := ((isHex64_iff.mp hx).2 i hi).reads
  have hbyte : bytes.get ⟨i, hi⟩ = UInt8.ofNat (16 * x + y) := by
    have h := hread ⟨i, hi⟩
    rw [hr] at h
    exact (Option.some.inj h).symm
  have hval : (bytes.get ⟨i, hi⟩).toNat = 16 * x + y := by
    have hlt : 16 * x + y < 256 := by omega
    rw [hbyte, UInt8.toNat_ofNat_of_lt' hlt]
  have hhigh : (16 * x + y) / 16 = x := by omega
  have hlow : (16 * x + y) % 16 = y := by omega
  calc pair (hex32 bytes) i
      = hexByte (bytes.get ⟨i, hi⟩) := pair_hex32 bytes ⟨i, hi⟩
    _ = [hexChar x, hexChar y] := by rw [hexByte, hval, hhigh, hlow]
    _ = (pair text i).map Char.toLower := by rw [hp, hlx, hly]; rfl
    _ = pair (lowercase text) i := (pair_lowercase text i).symm

/-- The reader of the state file is right but for signs. -/
theorem readsHex_parseHex32 (text : String) :
    ReadsHex text (parseHex32 text).toOption ↔ ¬Signed text := by
  have hsome : ∀ bytes, (parseHex32 text).toOption = some bytes ↔ parseHex32 text = .ok bytes := by
    intro bytes
    cases parseHex32 text <;> simp [Except.toOption]
  have hisSome : (parseHex32 text).toOption.isSome ↔ ∃ bytes, parseHex32 text = .ok bytes := by
    rw [Option.isSome_iff_exists]
    exact exists_congr hsome
  constructor
  · intro h hs
    exact hs.not_isHex64 (h.accepts.mp (hisSome.mpr (parseHex32_ok_iff.mpr (.inr hs))))
  · intro hs
    have hok : (∃ bytes, parseHex32 text = .ok bytes) ↔ IsHex64 text := by
      rw [parseHex32_ok_iff]
      exact or_iff_left hs
    refine ⟨hisSome.trans hok, fun bytes hb => ?_, fun bytes hb => ?_⟩
    · have hb := (hsome bytes).mp hb
      exact parseHex32_denotes hb (hok.mp ⟨bytes, hb⟩)
    · have hb := (hsome bytes).mp hb
      exact parseHex32_prints hb (hok.mp ⟨bytes, hb⟩)

/-- Both readers accept the same, and return the same. -/
theorem parseRecoveryCode_toOption (code : String) :
    (parseRecoveryCode code).toOption = (parseHex32 (trim code)).toOption := by
  unfold parseRecoveryCode
  split
  all_goals
    rename_i h
    rw [h]
    rfl

theorem Signed.plus_mem (h : Signed text) : '+' ∈ text.toList := by
  obtain ⟨-, -, i, -, d, hp, -⟩ := h
  exact mem_of_mem_pair (i := i) (by simp [hp])

theorem signed_hex32 (bytes : Bytes32) : ¬Signed (hex32 bytes) := by
  intro h
  have hlower := List.all_eq_true.mp (hex32_lower bytes) '+' h.plus_mem
  cases hlower

/-- A written code has nothing to trim. -/
theorem trim_hex32 (bytes : Bytes32) : trim (hex32 bytes) = hex32 bytes := by
  have hchars : ∀ c ∈ (hex32 bytes).toList, isWhiteSpace c = false := by
    intro c hc
    have hlower := List.all_eq_true.mp (hex32_lower bytes) c hc
    have hdigit : IsHexDigit c := by
      simp only [isLowerHex, Bool.or_eq_true, decide_eq_true_eq] at hlower
      exact hlower.imp id .inl
    exact hdigit.of_all (fun c => isWhiteSpace c = false) (by decide)
  have hkeep : ∀ l : List Char, (∀ c ∈ l, isWhiteSpace c = false) →
      l.dropWhile isWhiteSpace = l := by
    intro l hl
    cases l with
    | nil => rfl
    | cons c rest => rw [List.dropWhile_cons_of_neg (by simp [hl c])]
  rw [trim, hkeep _ hchars, hkeep _ fun c hc => hchars c (List.mem_reverse.mp hc),
    List.reverse_reverse, String.ofList_toList]

end texts

/-! ## The state file -/

/-- The texts of a lease that `parse_hex_32` alone checks. -/
def PersistedLease.hexTexts (lease : PersistedLease) : List String :=
  lease.retiredTokenIds ++ lease.retiredTokenId.toList ++ lease.recoveryId.toList

/-- The retired and recovery fingerprints of a state file, or its legacy tokens. -/
def LeaseStore.hexTexts (J : SerdeJson) (store : LeaseStore) : List String :=
  match store.file.bind J.fromSlice with
  | none => []
  | some value =>
    if J.hasVersion value then
      match J.toPersistedV2 value with
      | none => []
      | some persisted => persisted.leases.flatMap PersistedLease.hexTexts
    else
      match J.toLegacyState value with
      | none => []
      | some legacy => legacy.tokenPorts.map Prod.fst

section stateFile

variable {J : SerdeJson} {sha256 : Bytes32 → Bytes32} {store store' : LeaseStore} {now : UInt64}
  {loadIo : LoadIo} {table : LeaseTable} {text : String}

theorem parses_of_parseTokenIds {ids : List TokenId} {hexes : List String}
    (h : parseTokenIds hexes = .ok ids) (hmem : text ∈ hexes) :
    ∃ bytes, parseHex32 text = .ok bytes := by
  induction hexes generalizing ids with
  | nil => cases hmem
  | cons hex rest ih =>
    unfold parseTokenIds at h
    split at h
    · cases h
    · rename_i hid
      split at h
      · cases h
      · rename_i ids' hids
        rcases List.mem_cons.mp hmem with rfl | hmem
        · unfold parseTokenId at hid
          split at hid
          · cases hid
          · exact ⟨_, ‹_›⟩
        · exact ih hids hmem

theorem parses_of_intoRecord {lease : PersistedLease} {record : LeaseRecord}
    (h : lease.intoRecord = .ok record) (hmem : text ∈ lease.hexTexts) :
    ∃ bytes, parseHex32 text = .ok bytes := by
  unfold PersistedLease.intoRecord at h
  split at h
  · cases h
  split at h
  · cases h
  split at h
  · cases h
  rename_i hretired
  split at h
  · cases h
  rename_i hrecovery
  rcases List.mem_append.mp hmem with hmem | hmem
  · exact parses_of_parseTokenIds hretired hmem
  · exact parses_of_parseTokenIds hrecovery hmem

theorem parses_of_intoRecords {leases : List PersistedLease} {records : List LeaseRecord}
    (h : intoRecords leases = .ok records)
    (hmem : text ∈ leases.flatMap PersistedLease.hexTexts) :
    ∃ bytes, parseHex32 text = .ok bytes := by
  induction leases generalizing records with
  | nil => cases hmem
  | cons lease rest ih =>
    unfold intoRecords at h
    split at h
    · cases h
    rename_i hrecord
    split at h
    · cases h
    rename_i hrecords
    rcases List.mem_append.mp hmem with hmem | hmem
    · exact parses_of_intoRecord hrecord hmem
    · exact ih hrecords hmem

theorem parses_of_legacyRecords {ports : List UInt16} {tokens : List Bytes32}
    {entries : List (String × UInt16)} {records : List LeaseRecord}
    (h : LeaseStore.legacyRecords sha256 now ports tokens entries = .ok records)
    (hmem : text ∈ entries.map Prod.fst) : ∃ bytes, parseHex32 text = .ok bytes := by
  induction entries generalizing ports tokens records with
  | nil => cases hmem
  | cons entry rest ih =>
    obtain ⟨hex, port⟩ := entry
    unfold LeaseStore.legacyRecords at h
    split at h
    · cases h
    split at h
    · cases h
    split at h
    · cases h
    rename_i htoken
    split at h
    · cases h
    split at h
    · cases h
    rename_i hrest
    rcases List.mem_cons.mp hmem with rfl | hmem
    · exact ⟨_, htoken⟩
    · exact ih hrest hmem

/-- The texts of a file in the current format are those of its leases. -/
theorem hexTexts_current {bytes : List UInt8} {value : J.Value} {persisted : PersistedV2}
    (hfile : store.file = some bytes) (hvalue : J.fromSlice bytes = some value)
    (hversion : J.hasVersion value = true) (hpersisted : J.toPersistedV2 value = some persisted) :
    store.hexTexts J = persisted.leases.flatMap PersistedLease.hexTexts := by
  unfold LeaseStore.hexTexts
  rw [hfile, Option.bind_some, hvalue]
  dsimp only
  rw [if_pos hversion, hpersisted]

/-- A file that is loaded has no text that the reader refuses. -/
theorem parses_of_loadOrCreate
    (h : store.loadOrCreate J sha256 now loadIo = (.ok table, store'))
    (hmem : text ∈ store.hexTexts J) : ∃ bytes, parseHex32 text = .ok bytes := by
  unfold LeaseStore.hexTexts at hmem
  unfold LeaseStore.loadOrCreate at h
  split at h
  · rename_i hfile
    rw [hfile] at hmem
    cases hmem
  rename_i bytes hfile
  rw [hfile, Option.bind_some] at hmem
  split at h
  · cases h
  split at h
  · cases h
  rename_i value hvalue
  simp only [hvalue] at hmem
  split at h
  · rename_i hversion
    rw [if_pos hversion] at hmem
    unfold LeaseStore.loadCurrent at h
    split at h
    · cases h
    rename_i persisted hpersisted
    simp only [hpersisted] at hmem
    split at h
    · cases h
    split at h
    · cases h
    rename_i hrecords
    exact parses_of_intoRecords hrecords hmem
  · rename_i hversion
    rw [if_neg hversion] at hmem
    unfold LeaseStore.loadLegacy at h
    split at h
    · cases h
    rename_i legacy hlegacy
    simp only [hlegacy] at hmem
    split at h
    · cases h
    rename_i hmigrate
    unfold LeaseStore.migrateLegacy at hmigrate
    split at hmigrate
    · cases hmigrate
    split at hmigrate
    · cases hmigrate
    rename_i hrecords
    exact parses_of_legacyRecords hrecords hmem

end stateFile

/-- **Written codes read back, and texts without a sign are read as hexadecimal.** The readers of
codes and of the state file are right but for texts with a sign, and the texts of a file that is
loaded are all of 64 digits unless some have one. -/
theorem hex_read (secret : TunnelToken) (code hex : String) :
    parseRecoveryCode (formatRecoveryCode secret) = .ok secret ∧
    (ReadsHex (trim code) (parseRecoveryCode code).toOption ↔ ¬Signed (trim code)) ∧
    (ReadsHex hex (parseHex32 hex).toOption ↔ ¬Signed hex) ∧
    ∀ (J : SerdeJson) (sha256 : Bytes32 → Bytes32) (store store' : LeaseStore) (now : UInt64)
      (loadIo : LoadIo) (table : LeaseTable),
      store.loadOrCreate J sha256 now loadIo = (.ok table, store') →
      ((∀ text ∈ store.hexTexts J, IsHex64 text) ↔ ∀ text ∈ store.hexTexts J, ¬Signed text) := by
  refine ⟨?_, ?_, readsHex_parseHex32 hex, ?_⟩
  · rw [parseRecoveryCode, formatRecoveryCode, trim_hex32, parseHex32_hex32]
  · rw [parseRecoveryCode_toOption]
    exact readsHex_parseHex32 (trim code)
  · intro J sha256 store store' now loadIo table h
    refine forall₂_congr fun text hmem => ?_
    have hread : IsHex64 text ∨ Signed text :=
      parseHex32_ok_iff.mp (parses_of_loadOrCreate h hmem)
    exact ⟨fun hx hs => hs.not_isHex64 hx, hread.resolve_right⟩

/-- The state file of one lease with a recovery fingerprint loads, and that text has 64 digits. -/
theorem hex_read_sample : ∃ table,
    LeaseStore.loadOrCreate sampleJson sampleSha256 ⟨some sampleBytes, .absent⟩ 2000
      ⟨.created, .saved, .saved⟩ = (.ok table, ⟨some sampleBytes, .absent⟩) ∧
    LeaseStore.hexTexts sampleJson ⟨some sampleBytes, .absent⟩ = [hex32 sampleKey.bytes] ∧
    IsHex64 (hex32 sampleKey.bytes) := by
  have hvalue : sampleJson.fromSlice sampleBytes = some sampleState := by simp [sampleJson]
  have hlen : sampleBytes.length ≤ maxStateBytes := by decide +kernel
  have hrecords : intoRecords sampleState.leases = .ok [sampleRecord] :=
    intoRecords_fromRecord [sampleRecord]
  have hstores : LeaseStore.Stores sampleJson ⟨some sampleBytes, .absent⟩ [sampleRecord] :=
    ⟨hlen, sampleState, sampleState, hvalue, rfl, rfl, rfl, hrecords⟩
  have hrestore : (LeaseTable.restore [sampleRecord] 2000).isOk = true := by decide +kernel
  obtain ⟨table, htable⟩ : ∃ table, LeaseTable.restore [sampleRecord] 2000 = .ok table := by
    cases h : LeaseTable.restore [sampleRecord] 2000 with
    | error e => rw [h] at hrestore; cases hrestore
    | ok table => exact ⟨table, rfl⟩
  have hload : LeaseStore.loadOrCreate sampleJson sampleSha256 ⟨some sampleBytes, .absent⟩ 2000
      ⟨.created, .saved, .saved⟩ = (.ok table, ⟨some sampleBytes, .absent⟩) := by
    rw [hstores.load, htable]
  have htexts : LeaseStore.hexTexts sampleJson ⟨some sampleBytes, .absent⟩ =
      [hex32 sampleKey.bytes] := hexTexts_current rfl hvalue rfl rfl
  refine ⟨table, hload, htexts, ?_⟩
  obtain ⟨-, -, -, hloads⟩ := hex_read sampleDigest "" ""
  refine (hloads sampleJson sampleSha256 _ _ 2000 _ table hload).mpr ?_ _ ?_
  · intro text hmem hs
    rw [htexts, List.mem_singleton] at hmem
    subst hmem
    exact signed_hex32 _ hs
  · rw [htexts]
    exact List.mem_singleton_self _

/-- `+f`, 32 times. -/
def signedCode : String := String.ofList (List.replicate 32 ['+', 'f']).flatten

/-- A text that is not of digits is read as a recovery code, and in a state file. -/
theorem not_hex_only :
    ¬IsHex64 (trim signedCode) ∧ parseRecoveryCode signedCode = .ok (.replicate 32 15) ∧
    ¬IsHex64 signedCode ∧ parseHex32 signedCode = .ok (.replicate 32 15) := by
  have hlist : signedCode.toList = (List.replicate 32 ['+', 'f']).flatten := String.toList_ofList
  have htrim : trim signedCode = signedCode := by
    unfold trim
    rw [hlist]
    unfold signedCode
    refine congrArg String.ofList ?_
    decide +kernel
  have hread : parseHex32 signedCode = .ok (.replicate 32 15) := by
    refine parseHex32_eq_ok.mpr ?_
    unfold pair
    rw [hlist]
    decide +kernel
  have hnot : ¬IsHex64 signedCode := by
    intro h
    have hplus : '+' ∈ signedCode.toList := by
      rw [hlist]
      decide +kernel
    exact (h.2 '+' hplus).ne_plus rfl
  refine ⟨by rwa [htrim], ?_, hnot, hread⟩
  rw [parseRecoveryCode, htrim, hread]

end GameNet
