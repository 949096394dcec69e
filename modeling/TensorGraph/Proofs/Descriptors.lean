import Mathlib.Data.List.Nodup
import TensorGraph.Encoding.Descriptor
import TensorGraph.Proofs.JsonDocuments
import TensorGraph.Proofs.Results

/-!
Documents of tensors and operations. Every descriptor, valid or not, is encoded as a document that can
be written, and is what this document is decoded to.
-/

namespace TensorGraph

namespace Json

variable {α : Type}

structure Decodes (decode : Json → Option α) (document : Json) (value : α) : Prop where
  writable : document.Writable
  decoded : decode document = some value

section Records

theorem writable_record {members : List (String × Json)}
    (writable : ∀ member ∈ members, member.2.Writable) : (record members).Writable := by
  refine .object ?_ ?_
  · rw [List.forall_mem_map]
    exact fun member _ => ⟨member.1, rfl⟩
  · rw [List.forall_mem_map]
    exact writable

theorem lookup_members {members : List (String × Json)}
    (once : (members.map Prod.fst).Nodup) :
    (members.map Prod.fst).map (fun name =>
        (members.map fun member => (some member.1, member.2)).lookup (some name)) =
      members.map fun member => some member.2 := by
  induction members with
  | nil => rfl
  | cons member members ih =>
      rw [List.map_cons, List.nodup_cons] at once
      obtain ⟨notLater, othersOnce⟩ := once
      rw [List.map_cons, List.map_cons, List.map_cons, List.lookup_cons_self, List.map_cons,
        ← ih othersOnce]
      refine congrArg (some member.2 :: ·) (List.map_congr_left fun other listed => ?_)
      have different : (some other == some member.1) = false :=
        beq_false_of_ne fun same => notLater (Option.some.inj same ▸ listed)
      rw [List.lookup_cons, different]

theorem fields?_record {members : List (String × Json)} {names : List String}
    (same : members.map Prod.fst = names) (once : names.Nodup) :
    (record members).fields? names = some (members.map fun member => some member.2) := by
  subst same
  have counted : ∀ name ∈ members.map Prod.fst, (members.map fun member =>
      (some member.1, member.2)).countP (fun member => member.1 = some name) ≤ 1 := by
    intro name _
    have single := List.nodup_iff_count_le_one.mp once name
    rw [List.count, List.countP_map] at single
    rw [List.countP_map]
    refine Nat.le_trans (Nat.le_of_eq (List.countP_congr fun member _ => ?_)) single
    simp
  rw [record, fields?, namedMembers?, lookup_members once, if_pos]
  simp only [Bool.and_eq_true, List.all_eq_true, decide_eq_true_eq]
  exact ⟨List.forall_mem_map.mpr fun _ _ => rfl, counted⟩

@[simp] theorem required?_some (decode : Json → Option α) (document : Json) :
    required? decode (some document) = decode document := rfl

@[simp] theorem defaulted?_some (decode : Json → Option α) (value : α) (document : Json) :
    defaulted? decode value (some document) = decode document := rfl

end Records

section Values

theorem integer?_ofInt (value : Int) : (ofInt value).integer? = some value := by
  cases value with
  | ofNat value => rfl
  | negSucc value =>
      simp only [ofInt, Numeral.ofInt, Int.negSucc_lt_zero, decide_true, Int.natAbs_negSucc,
        integer?, Nat.succ_ne_zero, if_false]
      rfl

theorem writable_ofInt (value : Int) : (ofInt value).Writable :=
  .number (by simp [Numeral.ofInt])

theorem natBelow?_ofNat {value bound : Nat} (below : value < bound) :
    (ofNat value).natBelow? bound = some value := by
  have found := integer?_ofInt value
  rw [natBelow?, show ofNat value = ofInt value from rfl, found]
  simp [below]

theorem decodes_uint8 (value : UInt8) : Decodes uint8? (.ofNat value.toNat) value where
  writable := writable_ofInt _
  decoded := by rw [uint8?, natBelow?_ofNat value.toNat_lt, Option.map_some, UInt8.ofNat_toNat]

theorem decodes_uint32 (value : UInt32) : Decodes uint32? (.ofNat value.toNat) value where
  writable := writable_ofInt _
  decoded := by rw [uint32?, natBelow?_ofNat value.toNat_lt, Option.map_some, UInt32.ofNat_toNat]

theorem decodes_uint64 (value : UInt64) : Decodes uint64? (.ofNat value.toNat) value where
  writable := writable_ofInt _
  decoded := by rw [uint64?, natBelow?_ofNat value.toNat_lt, Option.map_some, UInt64.ofNat_toNat]

theorem decodes_string (text : String) : Decodes string? (.ofString text) text where
  writable := .string text
  decoded := rfl

theorem decodes_list {decode : Json → Option α} {encode : α → Json} {values : List α}
    (decodes : ∀ value ∈ values, Decodes decode (encode value) value) :
    Decodes (list? decode) (.ofList encode values) values where
  writable := .array (List.forall_mem_map.mpr fun value listed => (decodes value listed).writable)
  decoded := by
    rw [ofList, list?, mapM_eq_some_iff, List.forall₂_map_left_iff, List.forall₂_same]
    exact fun value listed => (decodes value listed).decoded

/-- A value that may be absent is told from `null`, which stands for its absence. -/
theorem decodes_option {decode : Json → Option α} {encode : α → Json} (value : Option α)
    (decodes : ∀ present ∈ value, Decodes decode (encode present) present)
    (notNull : ∀ present ∈ value, encode present ≠ .null) :
    Decodes (optional? decode) (.ofOption encode value) value := by
  cases value with
  | none => exact ⟨.null, rfl⟩
  | some present =>
      obtain ⟨writable, decoded⟩ := decodes present rfl
      refine ⟨writable, ?_⟩
      rw [ofOption, optional?, decoded, Option.map_some]
      exact notNull present rfl

end Values

end Json

theorem ElementType.decodes (elementType : ElementType) :
    Json.Decodes ElementType.ofJson? elementType.toJson elementType where
  writable := .string _
  decoded := by cases elementType <;> rfl

theorem StorageClass.decodes (storage : StorageClass) :
    Json.Decodes StorageClass.ofJson? storage.toJson storage where
  writable := .string _
  decoded := by cases storage <;> rfl

theorem Layout.decodes (layout : Layout) :
    Json.Decodes Layout.ofJson? layout.toJson layout where
  writable := .string _
  decoded := by cases layout <;> rfl

theorem Shape.decodes (shape : Shape) : Json.Decodes Shape.ofJson? shape.toJson shape := by
  have dimensions := Json.decodes_list fun dimension (_ : dimension ∈ shape.dimensions) =>
    Json.decodes_uint64 dimension
  refine ⟨Json.writable_record (by simpa using dimensions.writable), ?_⟩
  rw [ofJson?, toJson, Json.fields?_record]
  · simp only [List.map_cons, List.map_nil, Json.required?_some, dimensions.decoded]
    rfl
  · rfl
  · decide

theorem Tensor.decodes (tensor : Tensor) : Json.Decodes Tensor.ofJson? tensor.toJson tensor := by
  have id := Json.decodes_uint32 tensor.id
  have elementType := tensor.elementType.decodes
  have shape := tensor.shape.decodes
  have storage := tensor.storage.decodes
  have layout := tensor.layout.decodes
  refine ⟨Json.writable_record ?_, ?_⟩
  · simp [id.writable, elementType.writable, shape.writable, storage.writable, layout.writable]
  · rw [ofJson?, toJson, Json.fields?_record]
    · simp only [List.map_cons, List.map_nil, Json.required?_some, Json.defaulted?_some,
        id.decoded, elementType.decoded, shape.decoded, storage.decoded, layout.decoded]
      rfl
    · rfl
    · decide

theorem OperationKind.decodes (kind : OperationKind) :
    Json.Decodes OperationKind.ofJson? kind.toJson kind := by
  cases kind with
  | group pinned =>
      have content : (Json.record [("pinned", .boolean pinned)]).Writable :=
        Json.writable_record (by simpa using Json.Writable.boolean pinned)
      exact ⟨Json.writable_record (by simpa using content), rfl⟩
  | _ => exact ⟨.string _, rfl⟩

theorem Parameters.decodes (parameters : Parameters) :
    Json.Decodes Parameters.ofJson? parameters.toJson parameters := by
  have bytes := Json.decodes_list fun byte (_ : byte ∈ parameters.bytes.toList) =>
    Json.decodes_uint8 byte
  have length := Json.decodes_uint8 parameters.length
  have buffer : bufferOfJson? (.ofList (fun byte => .ofNat byte.toNat) parameters.bytes.toList) =
      some parameters.bytes := by
    have sameArray : parameters.bytes.toList.toArray = parameters.bytes.toArray :=
      Array.toArray_toList
    simp [bufferOfJson?, bytes.decoded, sameArray]
  refine ⟨Json.writable_record (by simp [bytes.writable, length.writable]), ?_⟩
  rw [ofJson?, toJson, Json.fields?_record]
  · simp only [List.map_cons, List.map_nil, Json.required?_some, buffer, length.decoded]
    rfl
  · rfl
  · decide

theorem decodes_ids (ids : List UInt32) : Json.Decodes idsOfJson? (idsToJson ids) ids :=
  Json.decodes_list fun id _ => Json.decodes_uint32 id

theorem Operation.decodes (operation : Operation) :
    Json.Decodes Operation.ofJson? operation.toJson operation := by
  have id := Json.decodes_uint32 operation.id
  have kind := operation.kind.decodes
  have elementType := Json.decodes_option operation.elementType
    (fun present _ => present.decodes) fun _ _ => nofun
  have inputs := decodes_ids operation.inputs
  have outputs := decodes_ids operation.outputs
  have parameters := operation.parameters.decodes
  refine ⟨Json.writable_record ?_, ?_⟩
  · simp [id.writable, kind.writable, elementType.writable, inputs.writable, outputs.writable,
      parameters.writable]
  · rw [ofJson?, toJson, Json.fields?_record]
    · simp only [List.map_cons, List.map_nil, Json.required?_some, Json.defaulted?_some,
        id.decoded, kind.decoded, elementType.decoded, inputs.decoded, outputs.decoded,
        parameters.decoded]
      rfl
    · rfl
    · decide

theorem Capacity.decodes (capacity : Capacity) :
    Json.Decodes Capacity.ofJson? capacity.toJson capacity := by
  have tensors := Json.decodes_uint64 capacity.tensors
  have operations := Json.decodes_uint64 capacity.operations
  refine ⟨Json.writable_record (by simp [tensors.writable, operations.writable]), ?_⟩
  rw [ofJson?, toJson, Json.fields?_record]
  · simp only [List.map_cons, List.map_nil, Json.required?_some, tensors.decoded,
      operations.decoded]
    rfl
  · rfl
  · decide

end TensorGraph
