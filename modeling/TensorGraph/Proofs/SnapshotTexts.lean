import TensorGraph.Proofs.Descriptors
import TensorGraph.Snapshot

/-!
Snapshots and their texts. A snapshot that is written, with blanks or without, is read again as it
was: its version, time and metadata, its capacity and every descriptor. Metadata has to be such as can
be kept in a text: without floating-point numbers, with members in order, and not nested too deep.
-/

namespace TensorGraph

namespace Entries

variable {κ ν : Type} {before : κ → κ → Bool}

theorem insert_of_last {entries : List (κ × ν)} {key : κ} (value : ν)
    (last : ∀ entry ∈ entries, before entry.1 key = true ∧ before key entry.1 = false) :
    insert before key value entries = entries ++ [(key, value)] := by
  induction entries with
  | nil => rfl
  | cons entry entries ih =>
      obtain ⟨⟨behind, notBefore⟩, others⟩ := List.forall_mem_cons.mp last
      rw [insert, notBefore, behind, ih others]
      rfl

theorem ofList_of_pairwise (asymmetric : ∀ first second, before first second = true →
      before second first = false) {entries : List (κ × ν)}
    (increasing : entries.Pairwise fun first second => before first.1 second.1 = true) :
    ofList before entries = entries := by
  have kept : ∀ front rest : List (κ × ν),
      (front ++ rest).Pairwise (fun first second => before first.1 second.1 = true) →
      rest.foldl (fun sorted entry => insert before entry.1 entry.2 sorted) front =
        front ++ rest := by
    intro front rest
    induction rest generalizing front with
    | nil => exact fun _ => (List.append_nil front).symm
    | cons entry rest ih =>
        intro increasing
        have apart := (List.pairwise_append.mp increasing).2.2
        have placed : insert before entry.1 entry.2 front = front ++ [entry] :=
          insert_of_last entry.2 fun earlier listed =>
            have behind := apart earlier listed entry List.mem_cons_self
            ⟨behind, asymmetric _ _ behind⟩
        have same : front ++ entry :: rest = front ++ [entry] ++ rest := by simp
        rw [List.foldl_cons, placed, ih (front ++ [entry]) (same ▸ increasing), same]
  exact kept [] entries increasing

end Entries

namespace JsonValue

/-- Values that a text can keep: without floating-point numbers, with integers of 64 bits, with the
members of an object in increasing order of their names, each name once, and with arrays and objects
nested at most as deep as given. -/
inductive Storable : Nat → JsonValue → Prop
  | null {depth : Nat} : Storable depth .null
  | boolean {depth : Nat} (value : Bool) : Storable depth (.boolean value)
  | integer {depth : Nat} {value : Int} : -0x8000000000000000 ≤ value →
      value ≤ 0xFFFFFFFFFFFFFFFF → Storable depth (.integer value)
  | string {depth : Nat} (text : String) : Storable depth (.string text)
  | array {depth : Nat} {items : List JsonValue} : (∀ item ∈ items, Storable depth item) →
      Storable (depth + 1) (.array items)
  | object {depth : Nat} {members : JsonMembers} :
      members.Pairwise (fun first second => first.1 < second.1) →
      (∀ member ∈ members, Storable depth member.2) → Storable (depth + 1) (.object members)

theorem sortMembers_of_pairwise {members : JsonMembers}
    (increasing : members.Pairwise fun first second => first.1 < second.1) :
    sortMembers members = members := by
  refine Entries.ofList_of_pairwise (fun first second behind => ?_) (by simpa using increasing)
  rw [decide_eq_true_eq] at behind
  rw [decide_eq_false_iff_not]
  exact fun before => String.lt_irrefl _ (String.lt_trans behind before)

theorem ofNumeral?_ofInt {value : Int} (least : -0x8000000000000000 ≤ value)
    (most : value ≤ 0xFFFFFFFFFFFFFFFF) :
    ofNumeral? (.ofInt value) = some (.integer value) := by
  cases value with
  | ofNat value =>
      have within : value ≤ Limit.word := by
        simp only [Int.ofNat_eq_natCast, Limit.word] at most ⊢
        omega
      change (if value ≤ Limit.word then some (JsonValue.integer value) else _) = _
      rw [if_pos within]
      rfl
  | negSucc value =>
      have within : 0 < value + 1 ∧ value + 1 ≤ 0x8000000000000000 := by omega
      simp only [Numeral.ofInt, Int.negSucc_lt_zero, decide_true, Int.natAbs_negSucc, ofNumeral?,
        Nat.succ_eq_add_one, if_pos within]
      rfl

theorem toItems_eq_map (items : List JsonValue) : toItems items = items.map toJson := by
  induction items with
  | nil => rw [toItems, List.map_nil]
  | cons item items ih => rw [toItems, List.map_cons, ih]

theorem toMembers_eq_map (members : JsonMembers) :
    toMembers members = members.map fun member => (some member.1, member.2.toJson) := by
  induction members with
  | nil => rw [toMembers, List.map_nil]
  | cons member members ih => rw [toMembers, List.map_cons, ih]

theorem ofItems?_map {depth : Nat} {items : List JsonValue}
    (decoded : ∀ item ∈ items, ofJson? depth item.toJson = some item) :
    ofItems? depth (items.map toJson) = some items := by
  induction items with
  | nil => rw [List.map_nil, ofItems?]
  | cons item items ih =>
      obtain ⟨here, others⟩ := List.forall_mem_cons.mp decoded
      rw [List.map_cons, ofItems?, here, ih others]
      rfl

theorem ofMembers?_map {depth : Nat} {members : JsonMembers}
    (decoded : ∀ member ∈ members, ofJson? depth member.2.toJson = some member.2) :
    ofMembers? depth (members.map fun member => (some member.1, member.2.toJson)) =
      some members := by
  induction members with
  | nil => rw [List.map_nil, ofMembers?]
  | cons member members ih =>
      obtain ⟨here, others⟩ := List.forall_mem_cons.mp decoded
      rw [List.map_cons, ofMembers?, here, ih others]
      rfl

theorem Storable.decodes {depth : Nat} {value : JsonValue} (storable : value.Storable depth) :
    Json.Decodes (ofJson? depth) value.toJson value := by
  induction storable with
  | null => exact ⟨by rw [toJson]; exact .null, by rw [toJson, ofJson?]⟩
  | boolean value => exact ⟨by rw [toJson]; exact .boolean value, by rw [toJson, ofJson?]⟩
  | integer least most =>
      refine ⟨by rw [toJson]; exact Json.writable_ofInt _, ?_⟩
      rw [toJson, Json.ofInt, ofJson?, ofNumeral?_ofInt least most]
  | string text => exact ⟨by rw [toJson]; exact .string text, by rw [toJson]; rfl⟩
  | @array depth items _ decodes =>
      rw [toJson, toItems_eq_map]
      refine ⟨.array (List.forall_mem_map.mpr fun item listed => (decodes item listed).writable), ?_⟩
      rw [ofJson?, ofItems?_map fun item listed => (decodes item listed).decoded]
      rfl
  | @object depth members increasing _ decodes =>
      rw [toJson, toMembers_eq_map]
      refine ⟨.object (List.forall_mem_map.mpr fun member _ => ⟨member.1, rfl⟩)
        (List.forall_mem_map.mpr fun member listed => (decodes member listed).writable), ?_⟩
      rw [ofJson?, ofMembers?_map fun member listed => (decodes member listed).decoded,
        Option.map_some, sortMembers_of_pairwise increasing]

end JsonValue

theorem GraphContent.decodes (content : GraphContent) :
    Json.Decodes GraphContent.ofJson? content.toJson content := by
  have capacity := content.capacity.decodes
  have tensors := Json.decodes_list fun tensor (_ : tensor ∈ content.tensors) => tensor.decodes
  have operations := Json.decodes_list fun operation (_ : operation ∈ content.operations) =>
    operation.decodes
  refine ⟨Json.writable_record ?_, ?_⟩
  · simp [capacity.writable, tensors.writable, operations.writable]
  · rw [ofJson?, toJson, Json.fields?_record]
    · simp only [List.map_cons, List.map_nil, Json.required?_some, capacity.decoded,
        tensors.decoded, operations.decoded]
      rfl
    · rfl
    · decide

namespace Snapshot

theorem decodes_metadata {metadata : JsonMembers}
    (storable : (JsonValue.object metadata).Storable (metadataDepth + 1)) :
    Json.Decodes metadataOfJson? (metadataToJson metadata) metadata := by
  refine ⟨storable.decodes.writable, ?_⟩
  cases storable with
  | object increasing members =>
      rw [metadataToJson, JsonValue.toJson, JsonValue.toMembers_eq_map, metadataOfJson?,
        JsonValue.ofMembers?_map fun member listed => (members member listed).decodes.decoded,
        Option.map_some, JsonValue.sortMembers_of_pairwise increasing]

theorem decodes {snapshot : Snapshot}
    (storable : ∀ metadata ∈ snapshot.metadata,
      (JsonValue.object metadata).Storable (metadataDepth + 1)) :
    Json.Decodes ofJson? snapshot.toJson snapshot := by
  have version := Json.decodes_string snapshot.version
  have createdAt := Json.decodes_option snapshot.createdAt
    (fun time _ => Json.decodes_string time) fun _ _ => nofun
  have metadata := Json.decodes_option snapshot.metadata
    (fun metadata present => decodes_metadata (storable metadata present)) fun _ _ => nofun
  have content := snapshot.content.decodes
  refine ⟨Json.writable_record ?_, ?_⟩
  · simp [version.writable, createdAt.writable, metadata.writable, content.writable]
  · rw [ofJson?, toJson, Json.fields?_record]
    · simp only [List.map_cons, List.map_nil, Json.required?_some, Json.defaulted?_some,
        version.decoded, createdAt.decoded, metadata.decoded, content.decoded]
      rfl
    · rfl
    · decide

def nestingLimit : Nat := 127

/-- A snapshot of a compatible version is read from either of its texts as it was written. The record
around the metadata is one of the levels that may nest. -/
theorem ofText_text {snapshot : Snapshot} (compatible : snapshot.isCompatible)
    (storable : ∀ metadata, snapshot.metadata = some metadata →
      (JsonValue.object metadata).Storable (nestingLimit - 1)) (layout : JsonLayout) :
    ofText (snapshot.text layout) = .ok snapshot := by
  obtain ⟨writable, decoded⟩ := decodes storable
  rw [ofText, text, Json.read?_text writable, Option.bind_some, decoded]
  exact if_pos compatible

def annotatedSnapshot : Snapshot where
  version := "1.9"
  createdAt := some "\t\"noon\"\x01"
  metadata := some [("", .integer (-0x8000000000000000)),
    ("list", .array [.null, .object [("x", .boolean true), ("y", .string "\\")]]),
    ("most", .integer 0xFFFFFFFFFFFFFFFF)]
  content := {
    capacity := ⟨UInt64.ofNat Limit.word, 0⟩
    tensors := [⟨7, .f16, ⟨[UInt64.ofNat Limit.word, 0]⟩, .device, .colMajor⟩]
    operations := [{
      id := 0xFFFFFFFF
      kind := .group true
      elementType := some .f32
      inputs := [3, 3]
      outputs := [7]
      parameters := .padded [255, 1] 40 }] }

theorem ofText_text_annotated :
    ofText (annotatedSnapshot.text .compact) = .ok annotatedSnapshot ∧
      ofText (annotatedSnapshot.text .indented) = .ok annotatedSnapshot := by
  have storable : ∀ metadata, annotatedSnapshot.metadata = some metadata →
      (JsonValue.object metadata).Storable (nestingLimit - 1) := by
    rintro _ ⟨⟩
    have inner : (JsonValue.object [("x", .boolean true), ("y", .string "\\")]).Storable 124 :=
      .object (by decide) (by simp [JsonValue.Storable.boolean, JsonValue.Storable.string])
    refine .object (by decide) ?_
    simp only [List.forall_mem_cons]
    refine ⟨.integer (by decide) (by decide), .array ?_, .integer (by decide) (by decide),
      by simp⟩
    simp [JsonValue.Storable.null, inner]
  exact ⟨ofText_text (by decide) storable .compact, ofText_text (by decide) storable .indented⟩

end Snapshot

end TensorGraph
