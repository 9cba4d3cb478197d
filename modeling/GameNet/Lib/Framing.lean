import GameNet.Lib.ByteStream
import GameNet.Lib.Program
import Mathlib.Data.List.Infix

/-!
# GameNet.Lib.Framing

Messages on a stream of bytes, written and read a piece at a time. `Reading` and `Writing` are
programs over the two ends of the stream, which answer a call with as few bytes as they like.

A `FrameCode` says how messages are written. `Receives` is the contract of a program that reads one
message: it never asks for more than is left of a frame, and what it returns is the only message
whose frame goes with what it has read. `Sends` is that of one that writes one. Then the stream is a
queue of messages: `Channel` is kept by every piece that is written or read, and a program that is
done has put a message into the queue, or taken the first one out of it.
-/

/-- A read into a buffer of this size. -/
structure ReadCall where
  size : Nat

/-- A write of some bytes, the first of which are accepted. -/
structure WriteCall where
  bytes : List UInt8

/-- Programs that read; nothing is read at the end of the stream. -/
abbrev Reading (ε α : Type) := Program ReadCall (fun _ => List UInt8) ε α

/-- Programs that write; the answer is how many bytes were accepted. -/
abbrev Writing (ε α : Type) := Program WriteCall (fun _ => { n : Nat // 0 < n }) ε α

section programs

variable {ε α β : Type}

namespace Reading

def read (n : Nat) : Reading ε (List UInt8) := Program.perform ⟨n⟩

/-- Reads until `n` bytes are there. The stream may end before that. -/
def readExact (eof : ε) (n : Nat) : Reading ε (List UInt8) :=
  if n = 0 then pure []
  else do
    let bytes ← read n
    if bytes = [] then Program.fail eof
    else do
      let rest ← readExact eof (n - bytes.length)
      pure (bytes ++ rest)
termination_by n
decreasing_by
  rename_i bytes hbytes
  have := List.length_pos_of_ne_nil hbytes
  omega

theorem readExact_zero {eof : ε} : readExact eof 0 = pure [] := by
  rw [readExact, if_pos rfl]

theorem readExact_of_ne {eof : ε} {n : Nat} (hn : n ≠ 0) : readExact eof n =
    .call ⟨n⟩ fun bytes =>
      if bytes = [] then .fail eof
      else readExact eof (n - bytes.length) >>= fun rest => pure (bytes ++ rest) := by
  rw [readExact, if_neg hn]
  rfl

/-- A run of the program alone on a stream that is cut into chunks. -/
def run : Reading ε α → ByteStream → Except ε α × ByteStream
  | .pure a, r => (.ok a, r)
  | .fail e, r => (.error e, r)
  | .call c k, r => run (k (r.read c.size).1) (r.read c.size).2

theorem run_bind {p : Reading ε α} {f : α → Reading ε β} {r : ByteStream} :
    run (p >>= f) r =
      match run p r with
      | (.error e, r) => (.error e, r)
      | (.ok a, r) => run (f a) r := by
  change run (p.bind f) r = _
  induction p generalizing r with
  | pure a => rfl
  | fail e => rfl
  | call c k ih => exact ih _

theorem run_readExact {eof : ε} {n : Nat} {r : ByteStream} : run (readExact eof n) r =
    match r.readExact n with
    | (none, r) => (.error eof, r)
    | (some bytes, r) => (.ok bytes, r) := by
  induction n using Nat.strongRecOn generalizing r with
  | ind n ih =>
    rw [ByteStream.readExact_eq]
    by_cases hn : n = 0
    · rw [if_pos hn, hn, readExact_zero]
      rfl
    · rw [if_neg hn, readExact_of_ne hn, run]
      cases r.read n with
      | mk bytes r' =>
        cases bytes with
        | nil => rfl
        | cons b rest =>
          have hlt : n - (b :: rest).length < n := by
            rw [List.length_cons]
            omega
          dsimp only
          rw [if_neg (List.cons_ne_nil b rest), run_bind, ih _ hlt]
          cases r'.readExact (n - (b :: rest).length) with
          | mk found r'' => cases found with | none => rfl | some bytes => rfl

end Reading

namespace Writing

def write (bytes : List UInt8) : Writing ε { n : Nat // 0 < n } := Program.perform ⟨bytes⟩

def writeAll (bytes : List UInt8) : Writing ε Unit :=
  if bytes = [] then pure ()
  else do
    let n ← write bytes
    writeAll (bytes.drop n)
termination_by bytes.length
decreasing_by
  have := List.length_pos_of_ne_nil ‹bytes ≠ []›
  have := n.property
  rw [List.length_drop]
  omega

theorem writeAll_of_ne {bytes : List UInt8} (h : bytes ≠ []) :
    (writeAll bytes : Writing ε Unit) = .call ⟨bytes⟩ fun n => writeAll (bytes.drop n) := by
  rw [writeAll, if_neg h]
  rfl

end Writing

end programs

/-! ## Frames -/

/-- How the messages of a kind, those that `admits` says, are written. -/
structure FrameCode (α : Type) where
  frame : α → List UInt8
  admits : α → Prop
  nonempty : ∀ a, frame a ≠ []

namespace FrameCode

variable {α ε : Type} (F : FrameCode α)

/-- The bytes are a part of the frame, and not all of it. -/
structure Begins (part : List UInt8) (a : α) : Prop where
  admits : F.admits a
  isPrefix : part <+: F.frame a
  short : part.length < (F.frame a).length

/-- The bytes go with the frame, as far as the shorter of the two. -/
def Meets (bytes : List UInt8) (a : α) : Prop := bytes <+: F.frame a ∨ F.frame a <+: bytes

/-- What a reader has read. -/
structure Got where
  bytes : List UInt8
  /-- It has found the end of the stream. -/
  ended : Bool

def reads : Program.Contract ReadCall (fun _ => List UInt8) Got where
  allowed g c := g.ended = false ∧ 0 < c.size ∧
    ∀ a, F.admits a → g.bytes <+: F.frame a → g.bytes.length + c.size ≤ (F.frame a).length
  next g c bytes g' := bytes.length ≤ c.size ∧ g' = ⟨g.bytes ++ bytes, bytes.isEmpty⟩

/-- What a reader may return: the message that it has read, or none at an end of the stream before
any. -/
def Returns : Option α → Got → Prop
  | some a, g => g.ended = false ∧ ∀ b, F.admits b → F.Meets g.bytes b →
      a = b ∧ g.bytes = F.frame b
  | none, g => g.ended = true ∧ g.bytes = []

/-- How it may fail: at an end of the stream, or over what goes with no frame. -/
def Fails (eof e : ε) (g : Got) : Prop :=
  g.ended = true ∧ e = eof ∨ g.ended = false ∧ ∀ b, F.admits b → ¬F.Meets g.bytes b

abbrev Receives (eof : ε) (p : Reading ε (Option α)) (g : Got) : Prop :=
  p.Obeys F.reads F.Returns (F.Fails eof) g

/-- What is written is a part of the frame. -/
def writes (a : α) : Program.Contract WriteCall (fun _ => { n : Nat // 0 < n }) (List UInt8) where
  allowed part c := c.bytes ≠ [] ∧ part ++ c.bytes <+: F.frame a
  next part c n part' := part' = part ++ c.bytes.take n

abbrev Sends (a : α) (p : Writing ε Unit) (part : List UInt8) : Prop :=
  p.Obeys (F.writes a) (fun _ part => part = F.frame a) (fun _ _ => False) part

/-! ## The programs of the library obey -/

variable {F} {a b : α} {eof : ε} {got bytes part rest : List UInt8} {queue : List α}

theorem reads_readExact {g : Got} {n : Nat} {Q : List UInt8 → Got → Prop} {E : ε → Got → Prop}
    (hended : g.ended = false)
    (hn : ∀ a, F.admits a → g.bytes <+: F.frame a → g.bytes.length + n ≤ (F.frame a).length)
    (hQ : ∀ bytes, bytes.length = n → Q bytes ⟨g.bytes ++ bytes, false⟩)
    (hE : ∀ bytes, E eof ⟨g.bytes ++ bytes, true⟩) :
    (Reading.readExact eof n).Obeys F.reads Q E g := by
  induction n using Nat.strongRecOn generalizing g Q with
  | ind n ih =>
    by_cases hzero : n = 0
    · have hQ := hQ [] hzero.symm
      rw [List.append_nil, ← hended] at hQ
      rwa [hzero, Reading.readExact_zero]
    · rw [Reading.readExact_of_ne hzero]
      refine ⟨⟨hended, Nat.pos_of_ne_zero hzero, hn⟩, ?_⟩
      rintro bytes _ ⟨hlen, rfl⟩
      dsimp only at hlen ⊢
      by_cases hbytes : bytes = []
      · rw [if_pos hbytes, hbytes]
        exact hE []
      · have hpos := List.length_pos_of_ne_nil hbytes
        rw [if_neg hbytes, Program.obeys_bind]
        refine ih _ (by omega) (by simpa using hbytes) ?_ ?_ ?_
        · intro a ha hstart
          have hle := hn a ha ((List.prefix_append _ _).trans hstart)
          rw [List.length_append]
          omega
        · intro rest hrest
          rw [List.append_assoc]
          refine hQ _ ?_
          rw [List.length_append]
          omega
        · intro rest
          rw [List.append_assoc]
          exact hE _

theorem writes_writeAll {Q : Unit → List UInt8 → Prop} {E : ε → List UInt8 → Prop}
    (hstart : part ++ bytes <+: F.frame a) (hQ : Q () (part ++ bytes)) :
    (Writing.writeAll bytes).Obeys (F.writes a) Q E part := by
  induction bytes using Writing.writeAll.induct generalizing part with
  | case1 =>
    rw [Writing.writeAll, if_pos rfl]
    rw [List.append_nil] at hQ
    exact hQ
  | case2 bytes hne ih =>
    rw [Writing.writeAll_of_ne hne]
    refine ⟨⟨hne, hstart⟩, ?_⟩
    rintro n _ rfl
    refine ih n ?_ ?_
    · rw [List.append_assoc, List.take_append_drop]
      exact hstart
    · rw [List.append_assoc, List.take_append_drop]
      exact hQ

/-! ## The queue -/

variable (F) in
/-- The messages of `queue` were written whole, of the next one `part` was, and `got` is what the
reader `p` has of the first; `bytes` were written and not read. -/
structure Channel (eof : ε) (p : Reading ε (Option α)) (got bytes : List UInt8) (queue : List α)
    (part : List UInt8) : Prop where
  split : got ++ bytes = queue.flatMap F.frame ++ part
  admits : ∀ a ∈ queue, F.admits a
  part : ∃ a, F.Begins part a
  first : ∀ a rest, queue = a :: rest → got <+: F.frame a
  reader : F.Receives eof p ⟨got, false⟩
  pending : ∃ c k, p = .call c k

theorem Begins.shorten {short long : List UInt8} (hl : F.Begins long a) (hs : short <+: long) :
    F.Begins short a :=
  ⟨hl.admits, hs.trans hl.isPrefix, hs.length_le.trans_lt hl.short⟩

theorem begins_nil (h : F.admits a) : F.Begins [] a :=
  ⟨h, List.nil_prefix, List.length_pos_of_ne_nil (F.nonempty a)⟩

namespace Channel

variable {p : Reading ε (Option α)} {more : List UInt8}

/-- There is a frame that the reader is in. -/
theorem inside (h : F.Channel eof p got bytes queue part) : ∃ a, F.Begins got a ∧
    ∀ b rest, queue = b :: rest → a = b := by
  obtain ⟨c, k, hp⟩ := h.pending
  have hreader := h.reader
  rw [hp] at hreader
  obtain ⟨-, hpos, hfits⟩ := hreader.1
  have hfits : ∀ a, F.admits a → got <+: F.frame a → got.length + c.size ≤ (F.frame a).length :=
    hfits
  cases hq : queue with
  | nil =>
    obtain ⟨a, ha⟩ := h.part
    have hsplit := h.split
    rw [hq, List.flatMap_nil, List.nil_append] at hsplit
    exact ⟨a, ha.shorten ⟨bytes, hsplit⟩, by simp⟩
  | cons a rest =>
    have ha := h.admits a (hq ▸ List.mem_cons_self)
    have hstart := h.first a rest hq
    have hle := hfits a ha hstart
    refine ⟨a, ⟨ha, hstart, by omega⟩, ?_⟩
    rintro b rest' ⟨⟩
    rfl

/-- A part of a message is written. -/
theorem write (h : F.Channel eof p got bytes queue part) (ha : F.Begins (part ++ more) a) :
    F.Channel eof p got (bytes ++ more) queue (part ++ more) where
  split := by rw [← List.append_assoc, h.split, List.append_assoc]
  admits := h.admits
  part := ⟨a, ha⟩
  first := h.first
  reader := h.reader
  pending := h.pending

/-- The rest of a message is written: it goes into the queue. -/
theorem put (h : F.Channel eof p got bytes queue part) (ha : F.admits a)
    (hframe : part ++ more = F.frame a) :
    F.Channel eof p got (bytes ++ more) (queue ++ [a]) [] where
  split := by
    rw [← List.append_assoc, h.split, List.append_assoc, hframe]
    simp
  admits b hb := by
    rcases List.mem_append.mp hb with hb | hb
    · exact h.admits b hb
    · rw [List.mem_singleton.mp hb]
      exact ha
  part := ⟨a, begins_nil ha⟩
  first b rest hq := by
    cases hold : queue with
    | nil =>
      rw [hold] at hq
      cases hq
      have hsplit := h.split
      rw [hold, List.flatMap_nil, List.nil_append] at hsplit
      exact (List.prefix_append got bytes).trans (hsplit ▸ ⟨more, hframe⟩)
    | cons b' rest' =>
      rw [hold] at hq
      cases hq
      exact h.first _ _ hold
  reader := h.reader
  pending := h.pending

/-- What is read of the stream is of a frame, and it is a whole one only if that is in the queue. -/
theorem ahead {c : ReadCall} {k : List UInt8 → Reading ε (Option α)}
    (h : F.Channel eof (.call c k) got (more ++ rest) queue part) (hlen : more.length ≤ c.size) :
    ∃ a, F.admits a ∧ got ++ more <+: F.frame a ∧ (∀ b queue', queue = b :: queue' → a = b) ∧
      (got ++ more = F.frame a → ∃ queue', queue = a :: queue') := by
  obtain ⟨a, ha, hfirst⟩ := h.inside
  have hfits : got.length + c.size ≤ (F.frame a).length := h.reader.1.2.2 a ha.admits ha.isPrefix
  have hsplit : (got ++ more) ++ rest = queue.flatMap F.frame ++ part := by
    rw [List.append_assoc]
    exact h.split
  have hread : got ++ more <+: queue.flatMap F.frame ++ part := ⟨rest, hsplit⟩
  cases hq : queue with
  | nil =>
    obtain ⟨b, hb⟩ := h.part
    rw [hq, List.flatMap_nil, List.nil_append] at hread
    have hmore := hb.shorten hread
    exact ⟨b, hb.admits, hmore.isPrefix, by simp, fun he => absurd (he ▸ hmore.short) (by simp)⟩
  | cons b queue' =>
    obtain rfl := hfirst b queue' hq
    refine ⟨a, ha.admits, ?_, ?_, fun _ => ⟨queue', rfl⟩⟩
    · rw [hq, List.flatMap_cons, List.append_assoc] at hread
      refine List.prefix_of_prefix_length_le hread (List.prefix_append _ _) ?_
      rw [List.length_append]
      omega
    · rintro b rest' ⟨⟩
      rfl

section

variable {c : ReadCall} {k : List UInt8 → Reading ε (Option α)}

theorem received (h : F.Channel eof (.call c k) got (more ++ rest) queue part) (hne : more ≠ [])
    (hlen : more.length ≤ c.size) : F.Receives eof (k more) ⟨got ++ more, false⟩ := by
  refine h.reader.answer ⟨hlen, ?_⟩
  rw [List.isEmpty_eq_false_iff.mpr hne]

/-- The reader goes on. -/
theorem read (h : F.Channel eof (.call c k) got (more ++ rest) queue part) (hne : more ≠ [])
    (hlen : more.length ≤ c.size) (hk : ∃ c' k', k more = .call c' k') :
    F.Channel eof (k more) (got ++ more) rest queue part where
  split := by
    rw [List.append_assoc]
    exact h.split
  admits := h.admits
  part := h.part
  first b queue' hq := by
    obtain ⟨a, -, hread, hfirst, -⟩ := h.ahead hlen
    rw [← hfirst b queue' hq]
    exact hread
  reader := h.received hne hlen
  pending := hk

/-- The reader returns the first message of the queue. -/
theorem take (h : F.Channel eof (.call c k) got (more ++ rest) queue part) (hne : more ≠ [])
    (hlen : more.length ≤ c.size) (hk : k more = .pure (some a))
    (hnext : F.Receives eof p ⟨[], false⟩) (hp : ∃ c k, p = .call c k) :
    ∃ queue', queue = a :: queue' ∧ F.Channel eof p [] rest queue' part := by
  have hreturns := h.received hne hlen
  rw [hk] at hreturns
  obtain ⟨b, hb, hread, -, hwhole⟩ := h.ahead hlen
  obtain ⟨rfl, hgot⟩ := hreturns.2 b hb (.inl hread)
  have hgot : got ++ more = F.frame a := hgot
  obtain ⟨queue', hq⟩ := hwhole hgot
  have hsplit := h.split
  rw [← List.append_assoc, hgot, hq, List.flatMap_cons, List.append_assoc,
    List.append_cancel_left_eq] at hsplit
  refine ⟨queue', hq, hsplit, ?_, h.part, fun _ _ _ => List.nil_prefix, hnext, hp⟩
  intro b hb
  exact h.admits b (hq ▸ List.mem_cons_of_mem _ hb)

/-- It does not fail, and does not return without a message, before the end of the stream. -/
theorem not_ended (h : F.Channel eof (.call c k) got (more ++ rest) queue part) (hne : more ≠ [])
    (hlen : more.length ≤ c.size) : k more ≠ .pure none ∧ ∀ e, k more ≠ .fail e := by
  have hreceived := h.received hne hlen
  constructor
  · intro hk
    rw [hk] at hreceived
    cases hreceived.1
  · intro e hk
    rw [hk] at hreceived
    obtain ⟨a, ha, hread, -⟩ := h.ahead hlen
    rcases hreceived with ⟨hended, -⟩ | ⟨-, hno⟩
    · cases hended
    · exact hno a ha (.inl hread)

/-- While a message is in the queue there are bytes to read. -/
theorem nonempty (h : F.Channel eof p got bytes queue part) (hq : queue ≠ []) : bytes ≠ [] := by
  rintro rfl
  obtain ⟨a, ha, hfirst⟩ := h.inside
  cases queue with
  | nil => exact hq rfl
  | cons b queue' =>
    obtain rfl := hfirst b queue' rfl
    have hlength := congrArg List.length h.split
    simp only [List.append_nil, List.flatMap_cons, List.length_append] at hlength
    have hshort := ha.short
    omega

end

end Channel

theorem sends_answer {c : WriteCall} {k : { n : Nat // 0 < n } → Writing ε Unit}
    (n : { n : Nat // 0 < n }) (h : F.Sends a (.call c k) part) :
    F.Sends a (k n) (part ++ c.bytes.take n) := h.2 n _ rfl

/-- What a writer has written is not all yet. -/
theorem begins_of_sends {c : WriteCall} {k : { n : Nat // 0 < n } → Writing ε Unit}
    (h : F.Sends a (.call c k) part) (ha : F.admits a) : F.Begins part a := by
  obtain ⟨⟨hne, hstart⟩, -⟩ := h
  refine ⟨ha, (List.prefix_append _ _).trans hstart, ?_⟩
  have hle := hstart.length_le
  have hpos := List.length_pos_of_ne_nil hne
  rw [List.length_append] at hle
  omega

end FrameCode
