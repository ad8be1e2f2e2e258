import Mathlib.Algebra.Group.Int.Defs

/-!
# Session options

`rpc/serialization/optimization_parameters.cpp`: clients read and set the members of
`optimization_parameters` by name. The members are visited by reflection, so a record is given here
by the list of its members, whose names are distinct.
-/

namespace Gqe.Rpc

open List BitVec

/-- `arrow::flight::SessionOptionValue`. A number in floating point is given by its bits. -/
inductive SessionOptionValue where
  | monostate
  | string (value : String)
  | bool (value : Bool)
  | int64 (value : BitVec 64)
  | double (bits : BitVec 64)
  | stringList (values : List String)
  deriving DecidableEq

inductive Status where
  | ok
  | invalid (message : String)
  | keyError (message : String)
  deriving DecidableEq

/-! ### Enumerations -/

def toLower (s : String) : String := String.ofList (s.toList.map Char.toLower)

/-- The names of an enumeration: those of `to_string`, those that `from_string` compares with, and
what it throws for all others. -/
structure EnumNames (E : Type) where
  toString : E → String
  names : List (String × E)
  unrecognized : String
  lookup_toString : ∀ e, names.lookup (toLower (toString e)) = some e

inductive IoEngineType where
  | ioUring | psync | automatic

inductive CompressionFormat where
  | none | ans | lz4 | snappy | gdeflate | deflate | cascaded | zstd | gzip | bitcomp

inductive DecompressionBackend where
  | default | sm | de

def ioEngineTypeNames : EnumNames IoEngineType where
  toString
    | .ioUring => "io_uring"
    | .psync => "psync"
    | .automatic => "automatic"
  names := [("io_uring", .ioUring), ("psync", .psync), ("automatic", .automatic),
    ("auto", .automatic)]
  unrecognized := "Unrecognized io_engine value: "
  lookup_toString e := by cases e <;> rfl

def compressionFormatNames : EnumNames CompressionFormat where
  toString
    | .none => "none"
    | .lz4 => "lz4"
    | .snappy => "snappy"
    | .ans => "ans"
    | .cascaded => "cascaded"
    | .gdeflate => "gdeflate"
    | .deflate => "deflate"
    | .zstd => "zstd"
    | .gzip => "gzip"
    | .bitcomp => "bitcomp"
  names :=
    [("none", .none), ("ans", .ans), ("lz4", .lz4), ("snappy", .snappy), ("gdeflate", .gdeflate),
      ("deflate", .deflate), ("cascaded", .cascaded), ("zstd", .zstd), ("gzip", .gzip),
      ("bitcomp", .bitcomp)]
  unrecognized := "Unrecognized compression format: "
  lookup_toString e := by cases e <;> rfl

def decompressionBackendNames : EnumNames DecompressionBackend where
  toString
    | .default => "default"
    | .sm => "sm"
    | .de => "de"
  names := [("default", .default), ("sm", .sm), ("de", .de)]
  unrecognized := "Unrecognized decompress backend: "
  lookup_toString e := by cases e <;> rfl

inductive EnumType where
  | ioEngineType | compressionFormat | decompressionBackend

abbrev EnumType.Value : EnumType → Type
  | .ioEngineType => IoEngineType
  | .compressionFormat => CompressionFormat
  | .decompressionBackend => DecompressionBackend

def EnumType.enumNames : (t : EnumType) → EnumNames t.Value
  | .ioEngineType => ioEngineTypeNames
  | .compressionFormat => compressionFormatNames
  | .decompressionBackend => decompressionBackendNames

/-! ### Members -/

/-- A member of `optimization_parameters`, with its type. `int32_t`, `int` and `cudf::size_type` are
one type. -/
inductive Member where
  | bool (value : Bool)
  | string (value : String)
  | double (bits : BitVec 64)
  | enum (type : EnumType) (value : type.Value)
  | int32 (value : BitVec 32)
  | size (value : BitVec 64)
  | optionalSize (value : Option (BitVec 64))

@[simp] def Member.toSessionValue : Member → SessionOptionValue
  | .bool value => .bool value
  | .string value => .string value
  | .double bits => .double bits
  | .enum type value => .string (type.enumNames.toString value)
  | .int32 value => .int64 (value.signExtend 64)
  | .size value | .optionalSize (some value) => .int64 value
  | .optionalSize none => .monostate

def expected (type name : String) : Status :=
  .invalid ("Expected " ++ type ++ " for '" ++ name ++ "'")

/-- `apply_value`: the member afterwards, and the status. -/
def Member.applyValue (name : String) (value : SessionOptionValue) : Member → Member × Status
  | .bool v =>
    match value with
    | .bool val => (.bool val, .ok)
    | _ => (.bool v, expected "bool" name)
  | .string v =>
    match value with
    | .string val => (.string val, .ok)
    | _ => (.string v, expected "string" name)
  | .double v =>
    match value with
    | .double val => (.double val, .ok)
    | _ => (.double v, expected "double" name)
  | .enum type v =>
    match value with
    | .string val =>
      match type.enumNames.names.lookup (toLower val) with
      | some e => (.enum type e, .ok)
      | none => (.enum type v, .invalid (type.enumNames.unrecognized ++ val))
    | _ => (.enum type v, expected "string" name)
  | .int32 v =>
    match value with
    -- `static_cast<int32_t>`
    | .int64 val => (.int32 (val.setWidth 32), .ok)
    | _ => (.int32 v, expected "int64" name)
  | .size v =>
    match value with
    | .int64 val => (.size val, .ok)
    | _ => (.size v, expected "int64" name)
  | .optionalSize v =>
    match value with
    | .monostate => (.optionalSize none, .ok)
    | .int64 val => (.optionalSize (some val), .ok)
    | _ => (.optionalSize v, expected "int64" name)

/-! ### Records -/

def optimizationParametersToSessionOptions (p : List (String × Member)) :
    List (String × SessionOptionValue) :=
  p.map fun (name, field) => (name, field.toSessionValue)

def applySessionOption (name : String) (value : SessionOptionValue) :
    List (String × Member) → List (String × Member) × Status
  | [] => ([], .keyError ("Unknown optimization parameter: '" ++ name ++ "'"))
  | (fname, field) :: fields =>
    if name = fname then
      let (field, status) := field.applyValue name value
      ((fname, field) :: fields, status)
    else
      let (fields, status) := applySessionOption name value fields
      ((fname, field) :: fields, status)

/-- `optimization_parameters` with its defaults. -/
def optimizationParameters : List (String × Member) :=
  [("max_num_workers", .size 1), ("max_num_partitions", .int32 8), ("log_level", .string "info"),
    ("initial_query_memory", .size 0x280000000), ("max_query_memory", .optionalSize none),
    ("initial_task_manager_memory", .size 0x280000000),
    ("max_task_manager_memory", .size 0xFFFFFFFFFFFFFFFF), ("join_use_hash_map_cache", .bool false),
    ("join_use_unique_keys", .bool true), ("join_use_perfect_hash", .bool false),
    ("join_use_mark_join", .bool true), ("read_zero_copy_enable", .bool true),
    ("use_customized_io", .bool false), ("io_bounce_buffer_size", .int32 4),
    ("io_auxiliary_threads", .size 8), ("use_opt_type_for_single_char_col", .bool true),
    ("use_in_memory_table_multigpu", .bool false), ("io_block_size", .size 2048),
    ("io_engine", .enum .ioEngineType .ioUring), ("io_pipelining", .bool true),
    ("io_alignment", .size 4096), ("use_overlap_mtx", .bool true),
    ("use_partition_pruning", .bool false), ("zone_map_partition_size", .int32 100000),
    ("filter_use_like_shift_and", .bool true), ("aggregation_use_perfect_hash", .bool false),
    ("num_shuffle_partitions", .int32 2),
    ("in_memory_table_compression_ratio_threshold", .double 0x3FF0000000000000),
    ("in_memory_table_compression_format", .enum .compressionFormat .none),
    ("in_memory_table_compression_chunk_size", .int32 0x10000),
    ("in_memory_table_secondary_compression_format", .enum .compressionFormat .none),
    ("in_memory_table_secondary_compression_ratio_threshold", .double 0x4008000000000000),
    ("in_memory_table_secondary_compression_multiplier_threshold", .double 0x3FF8000000000000),
    ("decompress_backend", .enum .decompressionBackend .default),
    ("use_cpu_compression", .bool false), ("compression_level", .int32 10),
    ("in_memory_dummy_copy_multiplier", .double 0x3FF0000000000000)]

/-! ### What is read back -/

/-- The member can hold the value as it is: numbers have to fit in 32 bits where the member does,
and names of enumerators are those of `to_string`, unless they are no names at all. -/
@[simp] def Member.Holds : Member → SessionOptionValue → Prop
  | .int32 _, .int64 val => -2 ^ 31 ≤ val.toInt ∧ val.toInt < 2 ^ 31
  | .enum type _, .string val =>
    (type.enumNames.names.lookup (toLower val)).isSome → ∃ e, type.enumNames.toString e = val
  | _, _ => True

lemma signExtend_setWidth_eq_iff (x : BitVec 64) :
    (x.setWidth 32).signExtend 64 = x ↔ -2 ^ 31 ≤ x.toInt ∧ x.toInt < 2 ^ 31 := by
  rw [← toInt_inj, toInt_signExtend_of_le (by decide), toInt_setWidth,
    toInt_eq_toNat_bmod]
  simp only [Int.bmod]
  omega

lemma Member.fst_applyValue_of_not_ok (field : Member) (name : String) (value : SessionOptionValue)
    (h : (field.applyValue name value).2 ≠ .ok) : (field.applyValue name value).1 = field := by
  cases field with
  | enum type v =>
    cases value with
    | string val =>
      simp only [applyValue] at h ⊢
      cases hlook : type.enumNames.names.lookup (toLower val) with
      | none => rfl
      | some e => simp [hlook] at h
    | _ => rfl
  | _ => cases value <;> first | rfl | exact absurd rfl h

lemma EnumNames.toString_lookup_iff {E : Type} (names : EnumNames E) {s : String} {e : E}
    (h : names.names.lookup (toLower s) = some e) :
    names.toString e = s ↔ ∃ e, names.toString e = s := by
  refine ⟨fun he => ⟨e, he⟩, ?_⟩
  rintro ⟨e', rfl⟩
  rw [names.lookup_toString] at h
  rw [Option.some_inj.1 h]

lemma Member.sessionValue_apply_iff (field : Member) (name : String)
    (value : SessionOptionValue) : ((field.applyValue name value).2 = .ok →
      (field.applyValue name value).1.toSessionValue = value) ↔ field.Holds value := by
  cases field with
  | int32 v =>
    cases value <;> simp [applyValue, expected, signExtend_setWidth_eq_iff]
  | enum type v =>
    cases value with
    | string val =>
      simp only [applyValue, Holds]
      cases h : type.enumNames.names.lookup (toLower val) with
      | none => simp
      | some e => simpa using type.enumNames.toString_lookup_iff h
    | _ => simp [applyValue, expected]
  | _ => cases value <;> simp [applyValue, expected]

/-- An option that was set is read back as it was, and one that was refused changes nothing, if and
only if the member can hold the value. -/
theorem applySessionOption_exact_iff (p : List (String × Member)) (name : String)
    (value : SessionOptionValue) : ((applySessionOption name value p).2 = .ok →
      (optimizationParametersToSessionOptions (applySessionOption name value p).1).lookup name =
        some value) ∧
    ((applySessionOption name value p).2 ≠ .ok → (applySessionOption name value p).1 = p) ↔
      ∀ field, p.lookup name = some field → field.Holds value := by
  induction p with
  | nil => simp [applySessionOption]
  | cons entry fields ih =>
    obtain ⟨fname, field⟩ := entry
    by_cases hname : name = fname
    · subst hname
      simp only [applySessionOption, if_true, optimizationParametersToSessionOptions, map_cons,
        lookup_cons_self, Option.some_inj, cons.injEq, Prod.mk.injEq, true_and, and_true,
        forall_eq', ← field.sessionValue_apply_iff name]
      exact and_iff_left (field.fst_applyValue_of_not_ok name value)
    · simp only [applySessionOption, hname, if_false, optimizationParametersToSessionOptions,
        map_cons, lookup_cons, beq_eq_false_iff_ne.2 hname, cons.injEq, true_and]
      exact ih

/-- Four billion and one partitions are accepted and read back as one, and the format `LZ4` as
`lz4`. -/
theorem applySessionOption_maxNumPartitions :
    let partitions := applySessionOption "max_num_partitions" (.int64 0x100000001)
      optimizationParameters
    let format := applySessionOption "in_memory_table_compression_format" (.string "LZ4")
      optimizationParameters
    partitions.2 = .ok ∧ format.2 = .ok ∧
    (optimizationParametersToSessionOptions partitions.1).lookup "max_num_partitions" =
      some (.int64 1) ∧
    (optimizationParametersToSessionOptions format.1).lookup "in_memory_table_compression_format" =
      some (.string "lz4") := by
  decide +kernel

end Gqe.Rpc
