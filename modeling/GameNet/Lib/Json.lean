import Mathlib.Data.String.Basic

/-!
# GameNet.Lib.Json

JSON values whose numbers are naturals, and their text with one item a line, two spaces deeper at
each level (`pretty`). Strings are escaped as short as JSON allows. A value is read field by field
(`asStruct`, `field`).

A program that limits the size of what it prints needs that size from the value. The rules count
the bytes of a text: `size_num_le`, `size_quote` for a string of plain characters (`Plain`),
`size_arr_le`.
-/

inductive Json where
  | null
  | num (n : Nat)
  | str (s : String)
  | arr (items : List Json)
  | obj (fields : List (String × Json))

namespace Json

/-- The characters that stand for a character of a string. -/
def escape (c : Char) : List Char :=
  if c.toNat = 34 ∨ c.toNat = 92 then ['\\', c]
  else if c.toNat = 8 then ['\\', 'b']
  else if c.toNat = 9 then ['\\', 't']
  else if c.toNat = 10 then ['\\', 'n']
  else if c.toNat = 12 then ['\\', 'f']
  else if c.toNat = 13 then ['\\', 'r']
  else if c.toNat < 32 then
    ['\\', 'u', '0', '0', Nat.digitChar (c.toNat / 16), Nat.digitChar (c.toNat % 16)]
  else [c]

def quote (s : String) : String := "\"" ++ String.ofList (s.toList.flatMap escape) ++ "\""

def newline (depth : Nat) : String := "\n" ++ String.ofList (List.replicate (2 * depth) ' ')

mutual

/-- The text of a value that starts at a depth. -/
def prettyAt (depth : Nat) : Json → String
  | null => "null"
  | num n => n.repr
  | str s => quote s
  | arr [] => "[]"
  | arr (item :: rest) =>
    "[" ++ newline (depth + 1) ++ prettyAt (depth + 1) item ++ prettyItems (depth + 1) rest ++
      newline depth ++ "]"
  | obj [] => "\x7b\x7d"
  | obj ((key, value) :: rest) =>
    "\x7b" ++ newline (depth + 1) ++ quote key ++ ": " ++ prettyAt (depth + 1) value ++
      prettyFields (depth + 1) rest ++ newline depth ++ "\x7d"

/-- Items after the first. -/
def prettyItems (depth : Nat) : List Json → String
  | [] => ""
  | item :: rest => "," ++ newline depth ++ prettyAt depth item ++ prettyItems depth rest

/-- Fields after the first. -/
def prettyFields (depth : Nat) : List (String × Json) → String
  | [] => ""
  | (key, value) :: rest =>
    "," ++ newline depth ++ quote key ++ ": " ++ prettyAt depth value ++ prettyFields depth rest

end

def pretty (value : Json) : String := value.prettyAt 0

def toBytes (value : Json) : List UInt8 := value.pretty.toUTF8.data.toList

example : pretty (arr [num 1, obj [("a", str "b"), ("c", arr [])]]) =
  "[\n  1,\n  \x7b\n    \"a\": \"b\",\n    \"c\": []\n  \x7d\n]" := by decide +kernel

/-! ## Reading -/

section reading

variable {α : Type}

/-- The value of a field of an object. -/
def get (key : String) : Json → Option Json
  | .obj fields => fields.lookup key
  | _ => none

def asString : Json → Option String
  | .str s => some s
  | _ => none

def asNat (bound : Nat) : Json → Option Nat
  | .num n => if n < bound then some n else none
  | _ => none

def asOption (read : Json → Option α) : Json → Option (Option α)
  | .null => some none
  | value => (read value).map some

def asList (read : Json → Option α) : Json → Option (List α)
  | .arr items => items.mapM read
  | _ => none

/-- The fields of a struct with these field names: an object with no others, or an array of as many
items in that order. -/
def asStruct (names : List String) : Json → Option (List (String × Json))
  | .obj fields => if fields.all fun field => names.contains field.1 then some fields else none
  | .arr items => if items.length = names.length then some (names.zip items) else none
  | _ => none

/-- A field of a struct, or what stands for it if it is left out. -/
def field (fields : List (String × Json)) (key : String) (absent : Option α)
    (read : Json → Option α) : Option α :=
  match fields.lookup key with
  | none => absent
  | some value => read value

theorem asList_map {β : Type} {read : Json → Option α} {write : β → Json} {value : β → α}
    {values : List β} (h : ∀ b ∈ values, read (write b) = some (value b)) :
    asList read (.arr (values.map write)) = some (values.map value) := by
  unfold asList
  induction values with
  | nil => rfl
  | cons b rest ih =>
    obtain ⟨hb, hrest⟩ := List.forall_mem_cons.mp h
    simp only [List.map_cons, List.mapM_cons, hb, ih hrest, Option.bind_eq_bind, Option.bind_some,
      Option.pure_def]

end reading

/-! ## Sizes -/

variable {depth n k : Nat} {s t : String} {items : List Json}

/-- A string that is printed as it is, one byte a character. -/
def Plain (s : String) : Prop := ∀ c ∈ s.toList, escape c = [c] ∧ c.utf8Size = 1

instance (s : String) : Decidable (Plain s) :=
  List.decidableBAll (fun c => escape c = [c] ∧ c.utf8Size = 1) s.toList

theorem Plain.append (hs : Plain s) (ht : Plain t) : Plain (s ++ t) := by
  intro c hc
  rw [String.toList_append, List.mem_append] at hc
  rcases hc with hc | hc
  · exact hs c hc
  · exact ht c hc

theorem Plain.intercalate {texts : List String} (hs : Plain s) (h : ∀ t ∈ texts, Plain t) :
    Plain (s.intercalate texts) := by
  induction texts with
  | nil =>
    rw [String.intercalate_nil]
    intro c hc
    cases hc
  | cons t rest ih =>
    obtain ⟨ht, hrest⟩ := List.forall_mem_cons.mp h
    by_cases hne : rest = []
    · rw [hne, String.intercalate_singleton]
      exact ht
    · rw [String.intercalate_cons_of_ne_nil hne]
      exact (ht.append hs).append (ih hrest)

/-- Digits are plain. -/
theorem plain_toDigits {b : Nat} (hb : 1 < b) (hb' : b ≤ 16) (n : Nat) :
    Plain (String.ofList (Nat.toDigits b n)) := by
  have hdigit : ∀ d < 16, escape (Nat.digitChar d) = [Nat.digitChar d] ∧
      (Nat.digitChar d).utf8Size = 1 := by
    decide
  intro c hc
  rw [String.toList_ofList] at hc
  induction n using Nat.strong_induction_on with
  | _ n ih =>
    rw [Nat.toDigits_eq_if hb] at hc
    split at hc
    · rw [List.mem_singleton.mp hc]
      exact hdigit n (by omega)
    · rcases List.mem_append.mp hc with hc | hc
      · exact ih (n / b) (Nat.div_lt_self (by omega) hb) hc
      · rw [List.mem_singleton.mp hc]
        exact hdigit (n % b) ((Nat.mod_lt n (by omega)).trans_le hb')

theorem plain_repr (n : Nat) : Plain n.repr := by
  rw [Nat.repr_eq_ofList_toDigits]
  exact plain_toDigits (by decide) (by decide) n

theorem size_of_ascii (h : ∀ c ∈ s.toList, c.utf8Size = 1) : s.utf8ByteSize = s.length := by
  have hchars : ∀ cs : List Char, (∀ c ∈ cs, c.utf8Size = 1) → String.utf8Len cs = cs.length := by
    intro cs hcs
    induction cs with
    | nil => rfl
    | cons c cs ih =>
      obtain ⟨hc, hcs⟩ := List.forall_mem_cons.mp hcs
      rw [String.utf8Len_cons, ih hcs, hc, List.length_cons]
  have hs := hchars s.toList h
  rwa [← String.utf8ByteSize_ofList, String.ofList_toList, String.length_toList] at hs

theorem Plain.size (h : Plain s) : s.utf8ByteSize = s.length := size_of_ascii fun c hc => (h c hc).2

theorem length_toBytes (value : Json) : value.toBytes.length = value.pretty.utf8ByteSize := rfl

@[simp] theorem size_newline (depth : Nat) : (newline depth).utf8ByteSize = 2 * depth + 1 := by
  have hspaces : (String.ofList (List.replicate (2 * depth) ' ')).utf8ByteSize = 2 * depth := by
    have hascii : ∀ c ∈ List.replicate (2 * depth) ' ', c.utf8Size = 1 := by
      intro c hc
      rw [List.eq_of_mem_replicate hc]
      decide
    rw [size_of_ascii (by rwa [String.toList_ofList]), String.length_ofList, List.length_replicate]
  have hline : "\n".utf8ByteSize = 1 := by decide
  rw [newline, String.utf8ByteSize_append, hspaces, hline]
  exact Nat.add_comm 1 (2 * depth)

theorem size_num_le (hk : 0 < k) (h : n < 10 ^ k) : (prettyAt depth (num n)).utf8ByteSize ≤ k := by
  rw [prettyAt, (plain_repr n).size]
  exact (Nat.length_repr_le_iff hk).mpr h

theorem size_quote (h : Plain s) : (quote s).utf8ByteSize = s.length + 2 := by
  have hmap : s.toList.flatMap escape = s.toList := by
    rw [List.flatMap_congr fun c hc => (h c hc).1]
    exact List.flatMap_singleton' _
  have hquote : "\"".utf8ByteSize = 1 := by decide
  simp only [quote, hmap, String.ofList_toList, String.utf8ByteSize_append, hquote, h.size]
  omega

theorem size_items_le (h : ∀ item ∈ items, (prettyAt depth item).utf8ByteSize ≤ n) :
    (prettyItems depth items).utf8ByteSize ≤ items.length * (n + 2 * depth + 2) := by
  induction items with
  | nil => exact Nat.zero_le _
  | cons item rest ih =>
    obtain ⟨hitem, hrest⟩ := List.forall_mem_cons.mp h
    have ih := ih hrest
    have hcomma : ",".utf8ByteSize = 1 := by decide
    simp only [prettyItems, String.utf8ByteSize_append, size_newline, List.length_cons, hcomma,
      Nat.succ_mul rest.length]
    omega

theorem prettyFields_append (fields others : List (String × Json)) :
    prettyFields depth (fields ++ others) =
      prettyFields depth fields ++ prettyFields depth others := by
  induction fields with
  | nil => rw [List.nil_append, prettyFields, String.empty_append]
  | cons field rest ih =>
    obtain ⟨key, value⟩ := field
    simp only [List.cons_append, prettyFields, ih, String.append_assoc]

theorem size_field (key : String) (value : Json) :
    (prettyFields depth [(key, value)]).utf8ByteSize =
      (quote key).utf8ByteSize + (prettyAt depth value).utf8ByteSize + 2 * depth + 4 := by
  have hcomma : ",".utf8ByteSize = 1 := by decide
  have hcolon : ": ".utf8ByteSize = 2 := by decide
  simp only [prettyFields, String.utf8ByteSize_append, size_newline, hcomma, hcolon,
    String.utf8ByteSize_empty]
  omega

/-- A list of items of at most `n` bytes each. -/
theorem size_arr_le (h : ∀ item ∈ items, (prettyAt (depth + 1) item).utf8ByteSize ≤ n) :
    (prettyAt depth (arr items)).utf8ByteSize ≤
      items.length * (n + 2 * depth + 4) + 2 * depth + 3 := by
  have hopen : "[".utf8ByteSize = 1 := by decide
  have hclose : "]".utf8ByteSize = 1 := by decide
  have hempty : "[]".utf8ByteSize = 2 := by decide
  cases items with
  | nil =>
    simp only [prettyAt, hempty]
    omega
  | cons item rest =>
    obtain ⟨hitem, hrest⟩ := List.forall_mem_cons.mp h
    have hrest := size_items_le hrest
    rw [show n + 2 * (depth + 1) + 2 = n + 2 * depth + 4 by omega] at hrest
    simp only [prettyAt, String.utf8ByteSize_append, size_newline, List.length_cons, hopen, hclose,
      Nat.succ_mul rest.length]
    omega

end Json
