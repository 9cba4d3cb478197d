/-!
# GameNet.Lib.ByteStream

The reading end of a byte stream. The bytes arrive in chunks, and one `read` returns bytes of one
chunk: at most as many as are asked for, and none only at the end of the stream. `readExact` reads
until it has all it was asked for. How the stream was cut into chunks is not visible through it: its
result and what it leaves are determined by the bytes that are left (`readExact_spec`).
-/

/-- What one `read` finds, which is not nothing. -/
abbrev Chunk := { bytes : List UInt8 // bytes ≠ [] }

/-- The chunks that are still to be read. -/
abbrev ByteStream := List Chunk

namespace ByteStream

/-- The bytes that are still to be read. -/
def content (r : ByteStream) : List UInt8 := r.flatMap Subtype.val

@[simp] theorem content_nil : content [] = [] := rfl

@[simp] theorem content_cons (c : Chunk) (r : ByteStream) : content (c :: r) = c.val ++ content r :=
  rfl

theorem content_eq_nil {r : ByteStream} : content r = [] ↔ r = [] := by
  cases r with
  | nil => simp
  | cons c r => simp [c.property]

/-- One read of at most `n` bytes. -/
def read (n : Nat) : ByteStream → List UInt8 × ByteStream
  | [] => ([], [])
  | c :: r =>
    if h : n < c.val.length then
      (c.val.take n, ⟨c.val.drop n, by simpa [List.drop_eq_nil_iff] using h⟩ :: r)
    else (c.val, r)

/-- Reads until `n` bytes are there; `none` is an unexpected end of the stream. -/
def readExact : Nat → ByteStream → Option (List UInt8) × ByteStream
  | 0, r => (some [], r)
  | _ + 1, [] => (none, [])
  | n + 1, c :: r =>
    if h : n + 1 < c.val.length then
      (some (c.val.take (n + 1)),
        ⟨c.val.drop (n + 1), by simpa [List.drop_eq_nil_iff] using h⟩ :: r)
    else
      match readExact (n + 1 - c.val.length) r with
      | (none, r) => (none, r)
      | (some bytes, r) => (some (c.val ++ bytes), r)

/-- A read returns what is next, and something unless nothing is left. -/
theorem read_spec (n : Nat) (r : ByteStream) :
    (read n r).1 ++ content (read n r).2 = content r ∧
      (read n r).1.length ≤ n ∧ (0 < n → (read n r).1 = [] → content r = []) := by
  cases r with
  | nil => simp [read]
  | cons c r =>
    simp only [read]
    split
    · rename_i h
      refine ⟨by simp [← List.append_assoc], List.length_take_le n c.val, fun hn he => ?_⟩
      have hlen := congrArg List.length he
      simp only [List.length_take, List.length_nil] at hlen
      omega
    · rename_i h
      refine ⟨rfl, ?_, fun _ he => absurd he c.property⟩
      dsimp only
      omega

/-- `readExact` goes on reading as long as bytes are missing and reads return some. -/
theorem readExact_eq (n : Nat) (r : ByteStream) : readExact n r =
    if n = 0 then (some [], r)
    else
      match read n r with
      | ([], r) => (none, r)
      | (bytes, r) =>
        match readExact (n - bytes.length) r with
        | (none, r) => (none, r)
        | (some rest, r) => (some (bytes ++ rest), r) := by
  cases n with
  | zero => cases r <;> simp [readExact]
  | succ n =>
    cases r with
    | nil => simp [readExact, read]
    | cons c r =>
      simp only [readExact, read, Nat.succ_ne_zero, if_false]
      split
      · rename_i h
        have hlen : (c.val.take (n + 1)).length = n + 1 := by
          rw [List.length_take]
          omega
        cases ht : c.val.take (n + 1) with
        | nil =>
          rw [ht] at hlen
          cases hlen
        | cons b bs =>
          rw [ht] at hlen
          simp [hlen, readExact]
      · cases hc : c.val with
        | nil => exact absurd hc c.property
        | cons b bs => simp

/-- The next `n` bytes, or none and the end of the stream when there are fewer. -/
theorem readExact_spec (n : Nat) (r : ByteStream) :
    if n ≤ (content r).length then
      ∃ r', readExact n r = (some ((content r).take n), r') ∧ content r' = (content r).drop n
    else readExact n r = (none, []) := by
  induction r generalizing n with
  | nil =>
    cases n with
    | zero => exact ⟨[], rfl, rfl⟩
    | succ n => simp [readExact]
  | cons c r ih =>
    cases n with
    | zero => exact ⟨c :: r, by simp [readExact], by simp⟩
    | succ n =>
      simp only [readExact, content_cons, List.length_append]
      split
      · rename_i hle
        split
        · rename_i h
          have hle : n + 1 ≤ c.val.length := by omega
          rw [List.take_append_of_le_length hle, List.drop_append_of_le_length hle]
          exact ⟨_, rfl, rfl⟩
        · rename_i h
          have hrest := ih (n + 1 - c.val.length)
          rw [if_pos (by omega)] at hrest
          obtain ⟨r', hr, hc⟩ := hrest
          have htake : c.val.take (n + 1) = c.val := List.take_of_length_le (by omega)
          have hdrop : c.val.drop (n + 1) = [] := List.drop_of_length_le (by omega)
          rw [hr, List.take_append, List.drop_append, htake, hdrop]
          exact ⟨r', rfl, hc⟩
      · rename_i hgt
        have h : ¬n + 1 < c.val.length := by omega
        have hrest := ih (n + 1 - c.val.length)
        rw [if_neg (by omega)] at hrest
        simp [h, hrest]

theorem readExact_append {n : Nat} {r : ByteStream} {bytes rest : List UInt8}
    (h : content r = bytes ++ rest) (hn : bytes.length = n) :
    ∃ r', readExact n r = (some bytes, r') ∧ content r' = rest := by
  have hspec := readExact_spec n r
  rw [h, if_pos (by rw [List.length_append]; omega), List.take_left' hn, List.drop_left' hn] at hspec
  exact hspec

theorem readExact_short {n : Nat} {r : ByteStream} (h : (content r).length < n) :
    readExact n r = (none, []) := by
  have hspec := readExact_spec n r
  rwa [if_neg (by omega)] at hspec

/-- A read of one byte finds the next one. -/
theorem read_one {r : ByteStream} {b : UInt8} {rest : List UInt8} (h : content r = b :: rest) :
    ∃ r', read 1 r = ([b], r') ∧ content r' = rest := by
  obtain ⟨hsplit, hlen, hne⟩ := read_spec 1 r
  cases hr : read 1 r with
  | mk bytes r' =>
    rw [hr, h] at hsplit
    rw [hr] at hlen hne
    match bytes, hlen with
    | [], _ =>
      rw [h] at hne
      exact absurd (hne (by omega) rfl) (by simp)
    | [b'], _ =>
      cases hsplit
      exact ⟨r', rfl, rfl⟩

end ByteStream
