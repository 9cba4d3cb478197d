import Mathlib.Data.Vector.Basic

/-!
# GameNet.Lib.Bincode

The binary format of `bincode` with fixed-width integers. An integer is its bytes, the lowest
first; an array is its bytes; a string is its length, as a `u64`, and its UTF-8 bytes; an option is
a byte 0, or a byte 1 and its value; an enum is the index of its variant, as a `u32`, and the fields.

A `Decoder` consumes a front part of the bytes it is given. `Reads d bytes a` says that it makes `a`
of `bytes` whatever follows them, and `Consumes d P` that what it makes and what it consumes for it
are as `P` says. Both compose with the decoder's own `do`.
-/

abbrev Decoder := StateT (List UInt8) Option

namespace Bincode

variable {α β : Type}

/-! ## Integers as bytes -/

/-- The lowest `w` bytes of `n`, the lowest first. -/
def leBytes : Nat → Nat → List UInt8
  | 0, _ => []
  | w + 1, n => UInt8.ofNat n :: leBytes w (n / 256)

def leValue : List UInt8 → Nat
  | [] => 0
  | b :: bytes => b.toNat + 256 * leValue bytes

@[simp] theorem length_leBytes (w n : Nat) : (leBytes w n).length = w := by
  induction w generalizing n with
  | zero => rfl
  | succ w ih => simp only [leBytes, List.length_cons, ih]

theorem leValue_leBytes {w n : Nat} (h : n < 256 ^ w) : leValue (leBytes w n) = n := by
  induction w generalizing n with
  | zero =>
    rw [Nat.pow_zero] at h
    simp only [leBytes, leValue]
    omega
  | succ w ih =>
    rw [Nat.pow_succ] at h
    have hrest : leValue (leBytes w (n / 256)) = n / 256 := ih (by omega)
    have hb : (UInt8.ofNat n).toNat = n % 256 := UInt8.toNat_ofNat'
    simp only [leBytes, leValue, hrest, hb]
    omega

/-- The highest byte first. -/
def beBytes (w n : Nat) : List UInt8 := (leBytes w n).reverse

def beValue (bytes : List UInt8) : Nat := leValue bytes.reverse

@[simp] theorem length_beBytes (w n : Nat) : (beBytes w n).length = w := by
  rw [beBytes, List.length_reverse, length_leBytes]

theorem beValue_beBytes {w n : Nat} (h : n < 256 ^ w) : beValue (beBytes w n) = n := by
  rw [beValue, beBytes, List.reverse_reverse, leValue_leBytes h]

theorem leValue_lt (bytes : List UInt8) : leValue bytes < 256 ^ bytes.length := by
  induction bytes with
  | nil => simp [leValue]
  | cons b bytes ih =>
    have hb := b.toNat_lt
    simp only [leValue, List.length_cons, Nat.pow_succ]
    omega

theorem leBytes_leValue (bytes : List UInt8) : leBytes bytes.length (leValue bytes) = bytes := by
  induction bytes with
  | nil => rfl
  | cons b bytes ih =>
    have hb := b.toNat_lt
    have hlow : UInt8.ofNat (b.toNat + 256 * leValue bytes) = b := by
      apply UInt8.toNat_inj.mp
      rw [UInt8.toNat_ofNat']
      omega
    have hrest : (b.toNat + 256 * leValue bytes) / 256 = leValue bytes := by omega
    simp only [leValue, List.length_cons, leBytes, hlow, hrest, ih]

theorem beBytes_beValue (bytes : List UInt8) : beBytes bytes.length (beValue bytes) = bytes := by
  have h := leBytes_leValue bytes.reverse
  rw [List.length_reverse] at h
  rw [beBytes, beValue, h, List.reverse_reverse]

/-! ## Decoders -/

def Reads (d : Decoder α) (bytes : List UInt8) (a : α) : Prop :=
  ∀ rest, d.run (bytes ++ rest) = some (a, rest)

theorem Reads.pure (a : α) : Reads (pure a) [] a := fun _ => rfl

theorem Reads.bind {d : Decoder α} {f : α → Decoder β} {bytes bytes' : List UInt8} {a : α} {b : β}
    (hd : Reads d bytes a) (hf : Reads (f a) bytes' b) : Reads (d >>= f) (bytes ++ bytes') b := by
  intro rest
  rw [StateT.run_bind, List.append_assoc, hd]
  exact hf rest

/-- The last of the fields. -/
theorem Reads.map {d : Decoder α} {f : α → β} {bytes : List UInt8} {a : α} (hd : Reads d bytes a) :
    Reads (f <$> d) bytes (f a) := by
  intro rest
  rw [StateT.run_map, hd]
  rfl

/-- The next `n` bytes. -/
def take (n : Nat) : Decoder (List UInt8) := fun bytes =>
  if n ≤ bytes.length then some (bytes.take n, bytes.drop n) else none

theorem reads_take {n : Nat} {bytes : List UInt8} (h : bytes.length = n) :
    Reads (take n) bytes bytes := by
  intro rest
  have hle : n ≤ (bytes ++ rest).length := by
    rw [List.length_append]
    omega
  show take n (bytes ++ rest) = _
  rw [take, if_pos hle, List.take_left' h, List.drop_left' h]

/-- An integer of `w` bytes. -/
def nat (w : Nat) : Decoder Nat := leValue <$> take w

theorem reads_nat {w n : Nat} (h : n < 256 ^ w) : Reads (nat w) (leBytes w n) n := by
  have hr := (reads_take (length_leBytes w n)).map (f := leValue)
  rwa [leValue_leBytes h] at hr

def u8 : Decoder UInt8 := UInt8.ofNat <$> nat 1
def u16 : Decoder UInt16 := UInt16.ofNat <$> nat 2
def u32 : Decoder UInt32 := UInt32.ofNat <$> nat 4
def u64 : Decoder UInt64 := UInt64.ofNat <$> nat 8

theorem reads_u8 (n : UInt8) : Reads u8 (leBytes 1 n.toNat) n := by
  have hr := (reads_nat (show n.toNat < 256 ^ 1 from n.toNat_lt)).map (f := UInt8.ofNat)
  rwa [UInt8.ofNat_toNat] at hr

theorem reads_u16 (n : UInt16) : Reads u16 (leBytes 2 n.toNat) n := by
  have hr := (reads_nat (show n.toNat < 256 ^ 2 from n.toNat_lt)).map (f := UInt16.ofNat)
  rwa [UInt16.ofNat_toNat] at hr

theorem reads_u32 (n : UInt32) : Reads u32 (leBytes 4 n.toNat) n := by
  have hr := (reads_nat (show n.toNat < 256 ^ 4 from n.toNat_lt)).map (f := UInt32.ofNat)
  rwa [UInt32.ofNat_toNat] at hr

theorem reads_u64 (n : UInt64) : Reads u64 (leBytes 8 n.toNat) n := by
  have hr := (reads_nat (show n.toNat < 256 ^ 8 from n.toNat_lt)).map (f := UInt64.ofNat)
  rwa [UInt64.ofNat_toNat] at hr

/-- `[u8; n]` -/
def array (n : Nat) : Decoder (List.Vector UInt8 n) := do
  let bytes ← take n
  if h : bytes.length = n then pure ⟨bytes, h⟩ else failure

theorem reads_array {n : Nat} (v : List.Vector UInt8 n) : Reads (array n) v.toList v := by
  have hr : Reads (array n) (v.toList ++ []) v := by
    refine (reads_take v.toList_length).bind ?_
    rw [dif_pos v.toList_length]
    exact .pure v
  rwa [List.append_nil] at hr

def encodeString (s : String) : List UInt8 :=
  leBytes 8 s.toUTF8.data.toList.length ++ s.toUTF8.data.toList

def string : Decoder String := do
  let n ← nat 8
  let bytes ← take n
  match String.fromUTF8? ⟨bytes.toArray⟩ with
  | some s => pure s
  | none => failure

theorem fromUTF8?_toUTF8 (s : String) :
    String.fromUTF8? ⟨s.toUTF8.data.toList.toArray⟩ = some s := by
  rw [Array.toArray_toList]
  exact dif_pos s.isValidUTF8

theorem reads_string {s : String} (h : s.toUTF8.data.toList.length < 256 ^ 8) :
    Reads string (encodeString s) s := by
  have hr : Reads string (encodeString s ++ []) s := by
    rw [encodeString, List.append_assoc]
    refine (reads_nat h).bind ((reads_take rfl).bind ?_)
    rw [fromUTF8?_toUTF8]
    exact .pure s
  rwa [List.append_nil] at hr

def encodeOption (encode : α → List UInt8) : Option α → List UInt8
  | none => [0]
  | some a => 1 :: encode a

def option (d : Decoder α) : Decoder (Option α) := do
  let tag ← u8
  match tag with
  | 0 => pure none
  | 1 => some <$> d
  | _ => failure

theorem reads_option {d : Decoder α} {encode : α → List UInt8} {a : Option α}
    (h : ∀ v, a = some v → Reads d (encode v) v) : Reads (option d) (encodeOption encode a) a := by
  cases a with
  | none => exact (reads_u8 0).bind (.pure none)
  | some v => exact (reads_u8 1).bind (h v rfl).map

/-! ## What a decoder consumes -/

def Consumes (d : Decoder α) (P : α → List UInt8 → Prop) : Prop :=
  ∀ bytes a rest, d.run bytes = some (a, rest) → ∃ used, bytes = used ++ rest ∧ P a used

variable {d : Decoder α} {P P' : α → List UInt8 → Prop} {Q : β → List UInt8 → Prop}

theorem Consumes.mono (h : Consumes d P) (hP : ∀ a used, P a used → P' a used) :
    Consumes d P' := by
  intro bytes a rest hr
  obtain ⟨used, hb, hp⟩ := h bytes a rest hr
  exact ⟨used, hb, hP a used hp⟩

theorem Consumes.pure {a : α} (h : P a []) : Consumes (pure a) P := by
  intro bytes a rest hr
  cases hr
  exact ⟨[], rfl, h⟩

theorem Consumes.failure : Consumes (failure : Decoder α) P := by
  intro bytes a rest hr
  cases hr

theorem Consumes.bind {f : α → Decoder β} (hd : Consumes d P)
    (hf : ∀ a used, P a used → Consumes (f a) fun b used' => Q b (used ++ used')) :
    Consumes (d >>= f) Q := by
  intro bytes b rest hr
  rw [StateT.run_bind] at hr
  obtain ⟨⟨a, bytes'⟩, ha, hb⟩ := Option.bind_eq_some_iff.mp hr
  obtain ⟨used, rfl, hp⟩ := hd bytes a bytes' ha
  obtain ⟨used', rfl, hq⟩ := hf a used hp bytes' b rest hb
  exact ⟨used ++ used', (List.append_assoc _ _ _).symm, hq⟩

theorem Consumes.map {f : α → β} (hd : Consumes d fun a used => Q (f a) used) :
    Consumes (f <$> d) Q := by
  intro bytes b rest hr
  rw [StateT.run_map] at hr
  obtain ⟨⟨a, bytes'⟩, ha, hr⟩ := Option.map_eq_some_iff.mp hr
  cases hr
  exact hd bytes a _ ha

theorem consumes_take (n : Nat) :
    Consumes (take n) fun bytes used => used = bytes ∧ used.length = n := by
  intro bytes a rest hr
  replace hr : take n bytes = some (a, rest) := hr
  rw [take] at hr
  split at hr
  · rename_i hle
    cases hr
    exact ⟨_, (List.take_append_drop n bytes).symm, rfl, by rw [List.length_take]; omega⟩
  · cases hr

theorem consumes_nat (w : Nat) :
    Consumes (nat w) fun n used => n < 256 ^ w ∧ used = leBytes w n := by
  refine ((consumes_take w).mono ?_).map
  rintro bytes used ⟨rfl, rfl⟩
  exact ⟨leValue_lt used, (leBytes_leValue used).symm⟩

theorem consumes_u8 : Consumes u8 fun n used => used = leBytes 1 n.toNat := by
  refine ((consumes_nat 1).mono ?_).map
  rintro n used ⟨hn, rfl⟩
  rw [UInt8.toNat_ofNat', Nat.mod_eq_of_lt (show n < 2 ^ 8 from hn)]

theorem consumes_u16 : Consumes u16 fun n used => used = leBytes 2 n.toNat := by
  refine ((consumes_nat 2).mono ?_).map
  rintro n used ⟨hn, rfl⟩
  rw [UInt16.toNat_ofNat', Nat.mod_eq_of_lt (show n < 2 ^ 16 from hn)]

theorem consumes_u32 : Consumes u32 fun n used => used = leBytes 4 n.toNat := by
  refine ((consumes_nat 4).mono ?_).map
  rintro n used ⟨hn, rfl⟩
  rw [UInt32.toNat_ofNat', Nat.mod_eq_of_lt (show n < 2 ^ 32 from hn)]

theorem consumes_u64 : Consumes u64 fun n used => used = leBytes 8 n.toNat := by
  refine ((consumes_nat 8).mono ?_).map
  rintro n used ⟨hn, rfl⟩
  rw [UInt64.toNat_ofNat', Nat.mod_eq_of_lt (show n < 2 ^ 64 from hn)]

theorem consumes_array (n : Nat) : Consumes (array n) fun v used => used = v.toList := by
  refine (consumes_take n).bind ?_
  rintro bytes used ⟨rfl, hlen⟩
  rw [dif_pos hlen]
  exact .pure (List.append_nil used)

theorem toUTF8_of_fromUTF8? {b : ByteArray} {s : String} (h : String.fromUTF8? b = some s) :
    s.toUTF8 = b := by
  unfold String.fromUTF8? at h
  split at h
  · cases h
    rfl
  · cases h

theorem consumes_string : Consumes string fun s used => used = encodeString s := by
  refine (consumes_nat 8).bind ?_
  rintro n used ⟨-, rfl⟩
  refine (consumes_take n).bind ?_
  rintro bytes used ⟨rfl, rfl⟩
  split
  · rename_i s hs
    have hbytes : s.toUTF8.data.toList = used := by rw [toUTF8_of_fromUTF8? hs]
    refine .pure ?_
    rw [List.append_nil, encodeString, hbytes]
  · exact .failure

theorem consumes_option {encode : α → List UInt8} (hd : Consumes d fun a used => used = encode a) :
    Consumes (option d) fun a used => used = encodeOption encode a := by
  refine consumes_u8.bind ?_
  rintro tag used rfl
  split
  · exact .pure rfl
  · refine (hd.mono ?_).map
    rintro a used rfl
    rfl
  · exact .failure

end Bincode
