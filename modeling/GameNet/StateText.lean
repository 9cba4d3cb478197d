import GameNet.LeaseStore
import GameNet.Lib.Json

/-!
# GameNet.StateText

The text of the relay's state file: `serde_json::to_vec_pretty` of a `PersistedV2`
(`crates/server/src/lease_store.rs`). Fields are in the order of the declaration, those that
`skip_serializing_if` drops are left out, and an address is printed with `Display`.

A lease takes at most 953 bytes, so what a table of 1000 is saved as fits the limit on the file
(`length_toBytes_le`).
-/

namespace GameNet

def PersistedLease.toJson (lease : PersistedLease) : Json :=
  .obj
    ([("token_id", .str lease.tokenId)] ++
      lease.retiredTokenId.toList.map (fun id => ("retired_token_id", .str id)) ++
      (if lease.retiredTokenIds = [] then []
        else [("retired_token_ids", .arr (lease.retiredTokenIds.map .str))]) ++
      lease.recoveryId.toList.map (fun id => ("recovery_id", .str id)) ++
      [("port", .num lease.port.toNat),
        ("last_ip", match lease.lastIp with | none => .null | some ip => .str ip.toText),
        ("expires_at_ms", .num lease.expiresAtMs.toNat)])

def PersistedV2.toJson (state : PersistedV2) : Json :=
  .obj
    [("version", .num state.version.toNat), ("leases", .arr (state.leases.map (·.toJson)))]

example : sampleState.toJson.pretty = sampleText := by decide +kernel

/-- `serde_json` prints the state as documented. -/
def SerdeJson.Prints (J : SerdeJson) (state : PersistedV2) : Prop :=
  J.toVecPretty state = some state.toJson.toBytes

/-- `serde_json` on some states. -/
def SerdeJson.printing (states : List PersistedV2) : SerdeJson where
  Value := PersistedV2
  fromSlice bytes := states.find? fun state => state.toJson.toBytes = bytes
  hasVersion _ := true
  toPersistedV2 := some
  toLegacyState _ := none
  toVecPretty state := if state ∈ states then some state.toJson.toBytes else none

theorem SerdeJson.printing_lawful {states : List PersistedV2}
    (h : ∀ a ∈ states, ∀ b ∈ states, a.toJson.toBytes = b.toJson.toBytes → a = b) :
    (printing states).Lawful where
  roundTrip {state bytes} hprint := by
    simp only [printing, Option.ite_none_right_eq_some, Option.some.injEq] at hprint
    obtain ⟨hmem, rfl⟩ := hprint
    have hfound : (states.find? fun a => a.toJson.toBytes = state.toJson.toBytes).isSome := by
      rw [List.find?_isSome]
      exact ⟨state, hmem, decide_eq_true rfl⟩
    obtain ⟨a, ha⟩ := Option.isSome_iff_exists.mp hfound
    have hbytes := List.find?_some ha
    obtain rfl := h a (List.mem_of_find?_eq_some ha) state hmem (of_decide_eq_true hbytes)
    exact ⟨a, ha, rfl, rfl⟩

/-! ## Addresses -/

section addresses

variable {texts : List String} {n : Nat}

theorem length_intercalate_le (sep : String) (h : ∀ text ∈ texts, text.length ≤ n) :
    (sep.intercalate texts).length ≤ texts.length * (n + sep.length) - sep.length := by
  induction texts with
  | nil =>
    rw [String.intercalate_nil]
    exact Nat.zero_le _
  | cons text rest ih =>
    obtain ⟨htext, hrest⟩ := List.forall_mem_cons.mp h
    have ih := ih hrest
    by_cases hne : rest = []
    · rw [hne, String.intercalate_singleton]
      simp only [List.length_cons, List.length_nil]
      omega
    · have hpos := Nat.succ_mul (rest.length - 1) (n + sep.length)
      have hlen := List.length_pos_of_ne_nil hne
      rw [Nat.succ_eq_add_one, Nat.sub_add_cancel hlen] at hpos
      rw [String.intercalate_cons_of_ne_nil hne]
      simp only [String.length_append, List.length_cons, Nat.succ_mul rest.length]
      omega

theorem Ipv4Addr.toText_plain (ip : Ipv4Addr) : Json.Plain ip.toText := by
  have hdot : Json.Plain "." := by decide
  refine hdot.intercalate fun text htext => ?_
  obtain ⟨octet, -, rfl⟩ := List.mem_map.mp htext
  exact Json.plain_repr octet.toNat

theorem Ipv4Addr.length_toText_le (ip : Ipv4Addr) : ip.toText.length ≤ 15 := by
  have hoctets : ∀ text ∈ ip.octets.toList.map fun octet => toString octet.toNat,
      text.length ≤ 3 := by
    intro text htext
    obtain ⟨octet, -, rfl⟩ := List.mem_map.mp htext
    have hlt := octet.toNat_lt
    exact (Nat.length_repr_le_iff (by decide)).mpr (by omega)
  have hlen := length_intercalate_le "." hoctets
  have hdot : ".".length = 1 := rfl
  rw [List.length_map, ip.octets.toList_length, hdot] at hlen
  exact hlen

theorem hexSegments_plain (segments : List Nat) : Json.Plain (hexSegments segments) := by
  have hcolon : Json.Plain ":" := by decide
  refine hcolon.intercalate fun text htext => ?_
  obtain ⟨segment, -, rfl⟩ := List.mem_map.mp htext
  exact Json.plain_toDigits (by decide) (by decide) segment

theorem length_hexSegments_le {segments : List Nat} (h : ∀ segment ∈ segments, segment < 65536) :
    (hexSegments segments).length ≤ segments.length * 5 - 1 := by
  have hdigits : ∀ text ∈ segments.map fun segment => String.ofList (Nat.toDigits 16 segment),
      text.length ≤ 4 := by
    intro text htext
    obtain ⟨segment, hsegment, rfl⟩ := List.mem_map.mp htext
    rw [String.length_ofList]
    exact (Nat.length_toDigits_le_iff (by decide) (by decide)).mpr (h segment hsegment)
  have hlen := length_intercalate_le ":" hdigits
  rw [List.length_map] at hlen
  exact hlen

/-- The run that is found lies within the segments. -/
theorem longestZeroes_le {i : Nat} {current longest : Nat × Nat}
    (hcurrent : current.2 = 0 ∨ current.1 + current.2 = i) (hlongest : longest.1 + longest.2 ≤ i) :
    (longestZeroes i current longest segments).1 + (longestZeroes i current longest segments).2 ≤
      i + segments.length := by
  induction segments generalizing i current longest with
  | nil => exact hlongest
  | cons segment rest ih =>
    have hnext : i + (segment :: rest).length = i + 1 + rest.length := by
      rw [List.length_cons]
      omega
    rw [hnext, longestZeroes]
    split
    · have hrun : ∀ run : Nat × Nat, run.1 + run.2 = i + 1 →
          (if longest.2 < run.2 then run else longest).1 +
            (if longest.2 < run.2 then run else longest).2 ≤ i + 1 := by
        intro run hrun
        split
        · exact hrun.le
        · omega
      have hcurrent' : (if current.2 = 0 then (i, 1) else (current.1, current.2 + 1)).1 +
          (if current.2 = 0 then (i, 1) else (current.1, current.2 + 1)).2 = i + 1 := by
        split
        · rfl
        · rename_i hne
          have hsum := hcurrent.resolve_left hne
          show current.1 + (current.2 + 1) = i + 1
          omega
      exact ih (.inr hcurrent') (hrun _ hcurrent')
    · exact ih (.inl rfl) (hlongest.trans (Nat.le_succ i))

theorem Ipv6Addr.segment_lt (ip : Ipv6Addr) : ∀ segment ∈ ip.segments, segment < 65536 := by
  intro segment hsegment
  obtain ⟨i, -, rfl⟩ := List.mem_map.mp hsegment
  have high := (ip.octets.toList.getD (2 * i) 0).toNat_lt
  have low := (ip.octets.toList.getD (2 * i + 1) 0).toNat_lt
  omega

theorem Ipv6Addr.length_segments (ip : Ipv6Addr) : ip.segments.length = 8 := by
  rw [segments, List.length_map, List.length_range]

theorem Ipv6Addr.toText_plain (ip : Ipv6Addr) : Json.Plain ip.toText := by
  unfold toText
  split
  · rename_i mapped _
    have hprefix : Json.Plain "::ffff:" := by decide
    exact hprefix.append mapped.toText_plain
  · have hcolons : Json.Plain "::" := by decide
    simp only
    split
    · exact ((hexSegments_plain _).append hcolons).append (hexSegments_plain _)
    · exact hexSegments_plain _

theorem Ipv6Addr.length_toText_le (ip : Ipv6Addr) : ip.toText.length ≤ 39 := by
  have hsegments := ip.length_segments
  unfold toText
  split
  · rename_i mapped _
    have hlen := mapped.length_toText_le
    have hprefix : "::ffff:".length = 7 := rfl
    rw [String.length_append, hprefix]
    omega
  · simp only
    split
    · -- a run of zeroes is written in two characters
      rename_i hrun
      have hbound : (longestZeroes 0 (0, 0) (0, 0) ip.segments).1 +
          (longestZeroes 0 (0, 0) (0, 0) ip.segments).2 ≤ 0 + ip.segments.length :=
        longestZeroes_le (.inl rfl) (Nat.le_refl 0)
      generalize longestZeroes 0 (0, 0) (0, 0) ip.segments = zeroes at hrun hbound
      have hbefore : (hexSegments (ip.segments.take zeroes.1)).length ≤ zeroes.1 * 5 - 1 := by
        have hlt : ∀ segment ∈ ip.segments.take zeroes.1, segment < 65536 :=
          fun segment hm => ip.segment_lt segment (List.mem_of_mem_take hm)
        have hlen := length_hexSegments_le hlt
        rw [List.length_take, hsegments] at hlen
        omega
      have hlt : ∀ segment ∈ ip.segments.drop (zeroes.1 + zeroes.2), segment < 65536 :=
        fun segment hm => ip.segment_lt segment (List.mem_of_mem_drop hm)
      have hafter := length_hexSegments_le hlt
      rw [List.length_drop] at hafter
      have hcolons : "::".length = 2 := rfl
      rw [String.length_append, String.length_append, hcolons]
      omega
    · have hlen := length_hexSegments_le ip.segment_lt
      rw [hsegments] at hlen
      exact hlen

theorem IpAddr.toText_plain (ip : IpAddr) : Json.Plain ip.toText := by
  cases ip with
  | v4 ip => exact ip.toText_plain
  | v6 ip => exact ip.toText_plain

/-- No address is longer than eight groups of four digits. -/
theorem IpAddr.length_toText_le (ip : IpAddr) : ip.toText.length ≤ 39 := by
  cases ip with
  | v4 ip => exact ip.length_toText_le.trans (by decide)
  | v6 ip => exact ip.length_toText_le

end addresses

/-! ## Sizes -/

theorem hex32_plain (bytes : Bytes32) : Json.Plain (hex32 bytes) := by
  have digit : ∀ d < 16, Json.escape (hexChar d) = [hexChar d] ∧ (hexChar d).utf8Size = 1 := by
    decide
  exact forall_mem_hex32 (fun {d} hd => digit d hd) bytes

theorem size_quote_hex32 (bytes : Bytes32) : (Json.quote (hex32 bytes)).utf8ByteSize = 66 := by
  rw [Json.size_quote (hex32_plain bytes), hex32, String.length_ofList, length_flatMap_hexByte,
    List.Vector.toList_length]

/-- A lease with eight retired ids, a recovery key and the longest address, port and deadline takes
953 bytes. -/
theorem PersistedLease.size_toJson_le {lease : PersistedLease}
    (hid : (Json.quote lease.tokenId).utf8ByteSize = 66) (hold : lease.retiredTokenId = none)
    (hlen : lease.retiredTokenIds.length ≤ 8)
    (hids : ∀ id ∈ lease.retiredTokenIds, (Json.quote id).utf8ByteSize = 66)
    (hkeys : ∀ id ∈ lease.recoveryId, (Json.quote id).utf8ByteSize = 66) :
    (lease.toJson.prettyAt 2).utf8ByteSize ≤ 953 := by
  have hretired : (Json.prettyFields 3
      [("retired_token_ids", .arr (lease.retiredTokenIds.map .str))]).utf8ByteSize ≤ 646 := by
    have hitems : ∀ item ∈ lease.retiredTokenIds.map Json.str,
        (item.prettyAt 4).utf8ByteSize ≤ 66 := by
      intro item hitem
      obtain ⟨id, hid, rfl⟩ := List.mem_map.mp hitem
      exact (hids id hid).le
    have hkey : (Json.quote "retired_token_ids").utf8ByteSize = 19 := by decide
    have harr := Json.size_arr_le hitems
    rw [List.length_map] at harr
    rw [Json.size_field, hkey]
    omega
  have hrecovery : (Json.prettyFields 3
      (lease.recoveryId.toList.map fun id => ("recovery_id", .str id))).utf8ByteSize ≤ 89 := by
    cases hr : lease.recoveryId with
    | none => exact Nat.zero_le _
    | some id =>
      have hkey : (Json.quote "recovery_id").utf8ByteSize = 13 := by decide
      simp only [Option.toList_some, List.map_cons, List.map_nil]
      rw [Json.size_field, hkey, Json.prettyAt, hkeys id hr]
  have hport : (Json.prettyFields 3 [("port", .num lease.port.toNat)]).utf8ByteSize ≤ 21 := by
    have hkey : (Json.quote "port").utf8ByteSize = 6 := by decide
    have hlt := lease.port.toNat_lt
    have hnum : (Json.prettyAt 3 (.num lease.port.toNat)).utf8ByteSize ≤ 5 :=
      Json.size_num_le (by decide) (by omega)
    rw [Json.size_field, hkey]
    omega
  have hlastIp : (Json.prettyFields 3 [("last_ip", match lease.lastIp with
      | none => .null
      | some ip => .str ip.toText)]).utf8ByteSize ≤ 60 := by
    have hkey : (Json.quote "last_ip").utf8ByteSize = 9 := by decide
    rw [Json.size_field, hkey]
    cases lease.lastIp with
    | none =>
      have hnull : "null".utf8ByteSize = 4 := by decide
      simp only [Json.prettyAt, hnull]
      omega
    | some ip =>
      have hlen := ip.length_toText_le
      simp only [Json.prettyAt, Json.size_quote ip.toText_plain]
      omega
  have hexpires : (Json.prettyFields 3
      [("expires_at_ms", .num lease.expiresAtMs.toNat)]).utf8ByteSize ≤ 45 := by
    have hkey : (Json.quote "expires_at_ms").utf8ByteSize = 15 := by decide
    have hlt := lease.expiresAtMs.toNat_lt
    have hnum : (Json.prettyAt 3 (.num lease.expiresAtMs.toNat)).utf8ByteSize ≤ 20 :=
      Json.size_num_le (by decide) (by omega)
    rw [Json.size_field, hkey]
    omega
  -- the last three fields one by one
  have hlast : ∀ a b c : String × Json, (Json.prettyFields 3 [a, b, c]).utf8ByteSize =
      (Json.prettyFields 3 [a]).utf8ByteSize + (Json.prettyFields 3 [b]).utf8ByteSize +
        (Json.prettyFields 3 [c]).utf8ByteSize := by
    intro a b c
    have hsplit : [a, b, c] = [a] ++ ([b] ++ [c]) := rfl
    rw [hsplit, Json.prettyFields_append, Json.prettyFields_append, String.utf8ByteSize_append,
      String.utf8ByteSize_append, Nat.add_assoc]
  have hkey : (Json.quote "token_id").utf8ByteSize = 10 := by decide
  have hopen : "\x7b".utf8ByteSize = 1 := by decide
  have hclose : "\x7d".utf8ByteSize = 1 := by decide
  have hcolon : ": ".utf8ByteSize = 2 := by decide
  have hnone : (Json.prettyFields 3 []).utf8ByteSize = 0 := rfl
  simp only [toJson, hold, Option.toList_none, List.map_nil, List.append_nil, List.cons_append,
    List.nil_append, List.append_assoc]
  simp only [Json.prettyAt, Json.prettyFields_append, String.utf8ByteSize_append,
    Json.size_newline, hkey, hid, hopen, hclose, hcolon, hlast, Nat.reduceAdd]
  split
  · rw [hnone]
    omega
  · omega

theorem size_fromRecord_le {record : LeaseRecord}
    (h : record.retiredTokenIds.length ≤ maxRetiredIdentities) :
    ((PersistedLease.fromRecord record).toJson.prettyAt 2).utf8ByteSize ≤ 953 := by
  refine PersistedLease.size_toJson_le (size_quote_hex32 _) rfl ?_ ?_ ?_
  · rw [PersistedLease.fromRecord, List.length_map]
    exact h
  · intro text htext
    obtain ⟨id, -, rfl⟩ := List.mem_map.mp htext
    exact size_quote_hex32 id.bytes
  · intro text htext
    obtain ⟨id, -, rfl⟩ := Option.map_eq_some_iff.mp htext
    exact size_quote_hex32 id.bytes

/-- A table's leases fit the limit. -/
theorem length_toBytes_le {records : List LeaseRecord} (hv : LeaseTable.Valid records) :
    (PersistedV2.toJson ⟨2, records.map PersistedLease.fromRecord⟩).toBytes.length ≤
      maxStateBytes := by
  have hlen := hv.length
  have hitems : ∀ item ∈ (records.map PersistedLease.fromRecord).map (·.toJson),
      (item.prettyAt 2).utf8ByteSize ≤ 953 := by
    intro item hitem
    rw [List.map_map, List.mem_map] at hitem
    obtain ⟨record, hrecord, rfl⟩ := hitem
    exact size_fromRecord_le (hv.recordOk record hrecord).retiredBound
  have hleases := Json.size_arr_le hitems
  rw [List.length_map, List.length_map] at hleases
  have hversionKey : (Json.quote "version").utf8ByteSize = 9 := by decide
  have hversion : (Nat.repr (UInt8.toNat 2)).utf8ByteSize = 1 := by decide
  have hleasesKey : (Json.quote "leases").utf8ByteSize = 8 := by decide
  have hopen : "\x7b".utf8ByteSize = 1 := by decide
  have hclose : "\x7d".utf8ByteSize = 1 := by decide
  have hcolon : ": ".utf8ByteSize = 2 := by decide
  rw [Json.length_toBytes]
  simp only [PersistedV2.toJson, Json.pretty, Json.prettyAt, Json.size_field,
    String.utf8ByteSize_append, Json.size_newline, hversionKey, hversion, hleasesKey, hopen, hclose,
    hcolon, maxStateBytes, Nat.zero_add]
  omega

/-- The state that `save` prints. -/
def savedState (records : List LeaseRecord) : PersistedV2 :=
  { version := 2
    leases :=
      (records.map PersistedLease.fromRecord).mergeSort fun a b => decide (a.port ≤ b.port) }

theorem savedState_sorted (records : List LeaseRecord) : savedState records =
    ⟨2, (records.mergeSort fun a b => decide (a.port ≤ b.port)).map PersistedLease.fromRecord⟩ :=
  congrArg (PersistedV2.mk 2)
    (List.map_mergeSort (f := PersistedLease.fromRecord) fun _ _ _ _ => rfl).symm

theorem length_savedState_le {records : List LeaseRecord} (hv : LeaseTable.Valid records) :
    (savedState records).toJson.toBytes.length ≤ maxStateBytes := by
  rw [savedState_sorted]
  exact length_toBytes_le (hv.perm (List.mergeSort_perm records _).symm)

/-- A save whose text fits the limit fails only with the file system. -/
theorem LeaseStore.save_printed {J : SerdeJson} {records : List LeaseRecord} {bytes : List UInt8}
    (hb : J.toVecPretty (savedState records) = some bytes) (hlen : bytes.length ≤ maxStateBytes)
    (store : LeaseStore) (io : SaveOutcome) : store.save J records io =
      match io with
      | .saved => (.ok (), { store with file := some bytes })
      | .keptOld => (.error .io, store)
      | .replacedUnsynced => (.error .io, { store with file := some bytes }) := by
  rw [savedState] at hb
  unfold save
  dsimp only
  rw [hb]
  exact if_neg (Nat.not_lt.mpr hlen)

end GameNet
