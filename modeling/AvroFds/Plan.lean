import AvroFds.Buffer

/-!
`FDSDecoder::Initialize` (fds_decoder.cc and fds_decoder.h): binding the
declared features to the columns of a record schema, and the plan of column
decoders it leaves, one per field in schema order.
-/

namespace AvroFds.Fds

open Schema Buffer

/-- `FeatureType`. -/
inductive FeatureType where
  | dense | sparse | varlen | opaqueContextual
  deriving Repr, DecidableEq

/-- Modelled from the spec: the `Status` values of errors.h (not in the
repository), without the schema text they quote. -/
inductive Status where
  | ok
  | fdsNotRecord (type : AvroType)
  | featureNotFound (name : String)
  | invalidUnionType (name : String)
  | schemaMismatch (name : String)
  | nullValue
  | featureDecode (name : String) (inner : Status)
  deriving Repr, DecidableEq

/-- Modelled from the spec: `dense::Metadata`, `sparse::Metadata` and
`varlen::Metadata` (decoder_base.h is not in the repository). A declared
feature is never of the kind `opaque_contextual`. -/
structure Metadata where
  type : FeatureType
  name : String
  dtype : DataType
  shape : List Int
  tensorIndex : Nat
  indicesIndex : Nat
  valuesIndex : Nat
  declared : type ≠ .opaqueContextual
  deriving DecidableEq

/-- A `DecoderBase` of the plan: the decoder `CreateFeatureDecoder` builds from
a carrier node and a feature, a `NullableFeatureDecoder` around one, or an
`opaque_contextual::FeatureDecoder` with its datum index. -/
inductive FeatureDecoder where
  | column (node : Node) (metadata : Metadata)
  | nullable (decoder : FeatureDecoder) (nonNullIndex : Nat)
  | opaqueContextual (datumIndex : Nat)

/-- The schema type a `DataType` is read from: "Int32 → int; Int64 → long;
Float32 → float; Float64 → double; Bool → boolean; String → string or bytes". -/
def typeMatches : DataType → AvroType → Bool
  | .int32, .int | .int64, .long | .float, .float | .double, .double | .bool, .bool => true
  | .string, .string | .string, .bytes => true
  | _, _ => false

/-- A nest of `rank` arrays around a primitive of `dtype`. -/
def nestedArray (dtype : DataType) : Nat → Node → Bool
  | 0, node => typeMatches dtype node.type
  | rank + 1, .array items => nestedArray dtype rank items
  | _ + 1, _ => false

/-- A sparse sub-record of rank `rank`: `rank + 1` fields, one `values` array of
`dtype` and `rank` arrays of longs named `indicesK`. -/
def sparseRecord (dtype : DataType) (rank : Nat) : Node → Bool
  | .record _ fields =>
    fields.length = rank + 1 && (fields.filter (·.1 = "values")).length = 1 &&
      fields.all fun (name, node) =>
        if name = "values" then nestedArray dtype 1 node
        else name.startsWith "indices" && nestedArray .int64 1 node
  | _ => false

/-- Modelled from the spec: `ValidateSchema(node, metadata)` of the feature
decoders (not in the repository). -/
def validateSchema (node : Node) (m : Metadata) : Status :=
  let ok := match m.type with
    | .dense | .varlen => nestedArray m.dtype m.shape.length node
    | .sparse => sparseRecord m.dtype m.shape.length node
    | .opaqueContextual => true
  if ok then .ok else .schemaMismatch m.name

/-- `non_null_index` of a union field: `1` for a two-branch union whose branch
`0` is null, `0` otherwise. -/
def carrierIndex (node : Node) : Nat :=
  if node.leaves = 2 ∧ (node.leafAt 0).type = .null then 1 else 0

/-- `FDSDecoder`: the metadata lists it is constructed with and what
`Initialize` builds. -/
@[ext] structure FDSDecoder where
  denseFeatures : List Metadata
  sparseFeatures : List Metadata
  varlenFeatures : List Metadata
  featureNames : List String
  decoders : List (Option FeatureDecoder)
  decoderTypes : List FeatureType
  skippedData : List GenericDatum
  schema : ValidSchema

/-- `FDSDecoder(dense_features, sparse_features, varlen_features)`. -/
def FDSDecoder.new (dense sparse varlen : List Metadata) : FDSDecoder :=
  ⟨dense, sparse, varlen, [], [], [], [], .null⟩

@[simp] theorem decoders_new (dense sparse varlen : List Metadata) :
    (FDSDecoder.new dense sparse varlen).decoders = [] := rfl

@[simp] theorem decoderTypes_new (dense sparse varlen : List Metadata) :
    (FDSDecoder.new dense sparse varlen).decoderTypes = [] := rfl

@[simp] theorem skippedData_new (dense sparse varlen : List Metadata) :
    (FDSDecoder.new dense sparse varlen).skippedData = [] := rfl

/-- The declared features, in the order `Initialize` binds them. -/
def FDSDecoder.declared (st : FDSDecoder) : List Metadata :=
  st.denseFeatures ++ st.sparseFeatures ++ st.varlenFeatures

/-- A call of `Initialize`: the `Status` it returns, and the state it leaves in
both cases. -/
abbrev InitM := EStateM Status FDSDecoder

/-- `TF_RETURN_IF_ERROR(status)`. -/
def returnIfError (status : Status) : InitM Unit :=
  if status = .ok then pure () else throw status

/-- `std::vector::resize(n, value)`. -/
def resize (l : List α) (n : Nat) (a : α) : List α :=
  l.take n ++ List.replicate (n - l.length) a

/-- `InitializeFeatureDecoder(schema, root_node, metadata)`. -/
def initializeFeatureDecoder (root : Node) (m : Metadata) : InitM Unit :=
  match root.nameIndex m.name with
  | none => throw (.featureNotFound m.name)
  | some pos => do
    modify fun st => { st with
      decoderTypes := st.decoderTypes.set pos m.type, featureNames := st.featureNames.set pos m.name }
    let featureNode := root.leafAt pos
    if featureNode.type = .union then
      let nonNullIndex := carrierIndex featureNode
      if featureNode.leaves = 1 ∨ featureNode.leaves = 2 then
        let nonNullFeatureNode := featureNode.leafAt nonNullIndex
        returnIfError (validateSchema nonNullFeatureNode m)
        modify fun st => { st with
          decoders := st.decoders.set pos (some (.nullable (.column nonNullFeatureNode m) nonNullIndex)) }
      else throw (.invalidUnionType m.name)
    else
      returnIfError (validateSchema featureNode m)
      modify fun st => { st with decoders := st.decoders.set pos (some (.column featureNode m)) }

/-- `for (size_t i = 0; i < features.size(); i++) TF_RETURN_IF_ERROR(InitializeFeatureDecoder(...));` -/
def initializeFeatures (root : Node) : List Metadata → InitM Unit
  | [] => pure ()
  | m :: ms => do
    initializeFeatureDecoder root m
    initializeFeatures root ms

/-- `feature_names_.resize(n, "")`, `decoder_types_.resize(n, opaque_contextual)`
and `decoders_.resize(n)`. -/
def FDSDecoder.resizeColumns (st : FDSDecoder) (n : Nat) : FDSDecoder :=
  { st with
    featureNames := resize st.featureNames n "",
    decoderTypes := resize st.decoderTypes n .opaqueContextual,
    decoders := resize st.decoders n none }

/-- The loop over the columns from `i` on, `k` of them, that installs an
`opaque_contextual::FeatureDecoder(opaque_contextual_index++)` at every column
still of type `opaque_contextual`, with its datum in the skipped data. -/
def installOpaque (root : Node) : Nat → Nat → Nat → FDSDecoder → FDSDecoder
  | 0, _, _, st => st
  | k + 1, i, j, st =>
    if st.decoderTypes[i]? = some .opaqueContextual then
      let node := root.leafAt i
      installOpaque root k (i + 1) (j + 1) { st with
        decoders := st.decoders.set i (some (.opaqueContextual j)),
        skippedData := st.skippedData ++ [GenericDatum.ofNode node],
        featureNames := if node.hasName then st.featureNames.set i node.name else st.featureNames }
    else installOpaque root k (i + 1) j st

/-- `FDSDecoder::Initialize(schema)`. -/
def initializeSchema (schema : ValidSchema) : InitM Unit := do
  let root := schema.root
  if root.type ≠ .record then throw (.fdsNotRecord root.type)
  let n := root.leaves
  modify (·.resizeColumns n)
  let st ← get
  initializeFeatures root st.denseFeatures
  initializeFeatures root st.sparseFeatures
  initializeFeatures root st.varlenFeatures
  modify (installOpaque root n 0 0)
  modify fun st => { st with schema := schema }

/-- The status `InitializeFeatureDecoder` returns for a feature. -/
def featureStatus (root : Node) (m : Metadata) : Status :=
  match root.nameIndex m.name with
  | none => .featureNotFound m.name
  | some pos =>
    let node := root.leafAt pos
    if node.type = .union then
      if node.leaves = 1 ∨ node.leaves = 2 then validateSchema (node.leafAt (carrierIndex node)) m
      else .invalidUnionType m.name
    else validateSchema node m

theorem featureStatus_congr {root root' : Node} {m : Metadata} {p q : Nat} (hp : root.nameIndex m.name = some p)
    (hq : root'.nameIndex m.name = some q) (hl : root'.leafAt q = root.leafAt p) :
    featureStatus root' m = featureStatus root m := by
  simp only [featureStatus, hp, hq, hl]

theorem featureStatus_union {root : Node} {m : Metadata} {p : Nat} (hp : root.nameIndex m.name = some p)
    (hU : (root.leafAt p).type = .union) :
    featureStatus root m =
      if (root.leafAt p).leaves = 1 ∨ (root.leafAt p).leaves = 2 then
        validateSchema ((root.leafAt p).leafAt (carrierIndex (root.leafAt p))) m
      else .invalidUnionType m.name := by
  simp only [featureStatus, hp, if_pos hU]

theorem validateSchema_of_featureStatus {root : Node} {m : Metadata} {p : Nat} (hp : root.nameIndex m.name = some p)
    (h : featureStatus root m = .ok) :
    validateSchema (if (root.leafAt p).type = .union then (root.leafAt p).leafAt (carrierIndex (root.leafAt p))
      else root.leafAt p) m = .ok := by
  simp only [featureStatus, hp] at h
  split_ifs at h ⊢ <;> exact h

/-- The decoder installed for a feature bound to a field of schema `node`:
wrapped in a `NullableFeatureDecoder` exactly when the field is a union. -/
def planEntry (node : Node) (m : Metadata) : FeatureDecoder :=
  if node.type = .union then .nullable (.column (node.leafAt (carrierIndex node)) m) (carrierIndex node)
  else .column node m

/-- The writes of a successful `InitializeFeatureDecoder`. -/
def declare (root : Node) (st : FDSDecoder) (m : Metadata) : FDSDecoder :=
  match root.nameIndex m.name with
  | none => st
  | some pos => { st with
    decoderTypes := st.decoderTypes.set pos m.type, featureNames := st.featureNames.set pos m.name,
    decoders := st.decoders.set pos (some (planEntry (root.leafAt pos) m)) }

theorem nestedArray_null (dtype : DataType) : ∀ rank, nestedArray dtype rank .null = false
  | 0 => by cases dtype <;> rfl
  | _ + 1 => rfl

theorem validateSchema_ok_type_ne_null {node : Node} {m : Metadata} (h : validateSchema node m = .ok) :
    node.type ≠ .null := by
  intro hn
  cases node <;> cases hn
  obtain ⟨type, name, dtype, shape, _, _, _, hd⟩ := m
  cases type <;> simp [validateSchema, nestedArray_null, sparseRecord] at h hd

@[simp] theorem returnIfError_run (status : Status) (st : FDSDecoder) :
    returnIfError status st = if status = .ok then .ok () st else .error status st := by
  unfold returnIfError; split <;> rfl

theorem returnIfError_bind_eq_ok {status : Status} {g : InitM Unit} {st st' : FDSDecoder} :
    (returnIfError status >>= fun _ => g) st = .ok () st' ↔ status = .ok ∧ g st = .ok () st' := by
  by_cases h : status = .ok
  · rw [bind_ok (by rw [returnIfError_run, if_pos h])]; simp [h]
  · rw [bind_error (by rw [returnIfError_run, if_neg h])]; simp [h]

theorem modify_eq_ok {g : FDSDecoder → FDSDecoder} {st st' : FDSDecoder} :
    (modify g : InitM Unit) st = .ok () st' ↔ st' = g st := by
  rw [modify_run]; simp [eq_comm]

theorem initializeFeatureDecoder_eq_ok {root : Node} {m : Metadata} {st st' : FDSDecoder} :
    initializeFeatureDecoder root m st = .ok () st' ↔ featureStatus root m = .ok ∧ st' = declare root st m := by
  unfold initializeFeatureDecoder featureStatus declare planEntry
  cases root.nameIndex m.name with
  | none => simp
  | some pos =>
    dsimp only
    rw [bind_ok (modify_run _ _)]
    by_cases hu : (root.leafAt pos).type = .union
    · rw [if_pos hu, if_pos hu, if_pos hu]
      by_cases hl : (root.leafAt pos).leaves = 1 ∨ (root.leafAt pos).leaves = 2
      · rw [if_pos hl, if_pos hl, returnIfError_bind_eq_ok, modify_eq_ok]
      · rw [if_neg hl, if_neg hl]; simp
    · rw [if_neg hu, if_neg hu, if_neg hu, returnIfError_bind_eq_ok, modify_eq_ok]

theorem initializeFeatures_eq_ok {root : Node} :
    ∀ {ms : List Metadata} {st st' : FDSDecoder}, initializeFeatures root ms st = .ok () st' ↔
      (∀ m ∈ ms, featureStatus root m = .ok) ∧ st' = ms.foldl (declare root) st
  | [], st, st' => by simp [initializeFeatures, eq_comm]
  | m :: ms, st, st' => by
    constructor
    · intro h
      obtain ⟨_, st₁, h₁, h₂⟩ := bind_eq_ok h
      obtain ⟨hm, rfl⟩ := initializeFeatureDecoder_eq_ok.mp h₁
      obtain ⟨hms, rfl⟩ := initializeFeatures_eq_ok.mp h₂
      exact ⟨List.forall_mem_cons.mpr ⟨hm, hms⟩, rfl⟩
    · rintro ⟨hms, rfl⟩
      rw [initializeFeatures, bind_ok (initializeFeatureDecoder_eq_ok.mpr ⟨hms m (by simp), rfl⟩)]
      exact initializeFeatures_eq_ok.mpr ⟨fun m' hm' => hms m' (by simp [hm']), rfl⟩

theorem error_eq_error {e₀ e : Status} {st : FDSDecoder} (h₀ : e₀ ≠ .ok) :
    (∃ st', (.error e₀ st : EStateM.Result Status FDSDecoder Unit) = .error e st') ↔ e₀ = e ∧ e ≠ .ok := by
  constructor
  · rintro ⟨_, he⟩
    cases he
    exact ⟨rfl, h₀⟩
  · rintro ⟨rfl, -⟩
    exact ⟨_, rfl⟩

theorem throw_eq_error {e₀ e : Status} {st : FDSDecoder} (h₀ : e₀ ≠ .ok) :
    (∃ st', (throw e₀ : InitM Unit) st = .error e st') ↔ e₀ = e ∧ e ≠ .ok := by
  rw [throw_run]
  exact error_eq_error h₀

theorem returnIfError_modify_eq_error {status e : Status} {g : FDSDecoder → FDSDecoder} {st : FDSDecoder} :
    (∃ st', (returnIfError status >>= fun _ => modify g) st = .error e st') ↔ status = e ∧ e ≠ .ok := by
  by_cases h : status = .ok
  · rw [bind_ok (by rw [returnIfError_run, if_pos h]), modify_run]
    simp [h, eq_comm]
  · rw [bind_error (by rw [returnIfError_run, if_neg h])]
    exact error_eq_error h

theorem initializeFeatureDecoder_eq_error {root : Node} {m : Metadata} {st : FDSDecoder} {e : Status} :
    (∃ st', initializeFeatureDecoder root m st = .error e st') ↔ featureStatus root m = e ∧ e ≠ .ok := by
  unfold initializeFeatureDecoder featureStatus
  cases root.nameIndex m.name with
  | none => exact throw_eq_error nofun
  | some pos =>
    dsimp only
    rw [bind_ok (modify_run _ _)]
    by_cases hu : (root.leafAt pos).type = .union
    · rw [if_pos hu, if_pos hu]
      by_cases hl : (root.leafAt pos).leaves = 1 ∨ (root.leafAt pos).leaves = 2
      · rw [if_pos hl, if_pos hl, returnIfError_modify_eq_error]
      · rw [if_neg hl, if_neg hl]
        exact throw_eq_error nofun
    · rw [if_neg hu, if_neg hu, returnIfError_modify_eq_error]

theorem initializeFeatures_eq_error {root : Node} {e : Status} :
    ∀ {ms : List Metadata} {st : FDSDecoder}, (∃ st', initializeFeatures root ms st = .error e st') ↔
      ∃ pre m post, ms = pre ++ m :: post ∧ (∀ m' ∈ pre, featureStatus root m' = .ok) ∧
        featureStatus root m = e ∧ e ≠ .ok
  | [], st => by simp [initializeFeatures]
  | m :: ms, st => by
    by_cases hm : featureStatus root m = .ok
    · rw [initializeFeatures, bind_ok (initializeFeatureDecoder_eq_ok.mpr ⟨hm, rfl⟩), initializeFeatures_eq_error]
      constructor
      · rintro ⟨pre, m', post, rfl, hpre, he, hne⟩
        exact ⟨m :: pre, m', post, rfl, List.forall_mem_cons.mpr ⟨hm, hpre⟩, he, hne⟩
      · rintro ⟨pre, m', post, hms, hpre, he, hne⟩
        cases pre with
        | nil =>
          cases hms
          exact absurd (hm.symm.trans he) hne.symm
        | cons a pre =>
          cases hms
          exact ⟨pre, m', post, rfl, fun x hx => hpre x (List.mem_cons_of_mem _ hx), he, hne⟩
    · obtain ⟨st₁, h₁⟩ := initializeFeatureDecoder_eq_error.mpr ⟨rfl, hm⟩
      rw [initializeFeatures, bind_error h₁]
      constructor
      · rintro ⟨_, he⟩
        cases he
        exact ⟨[], m, ms, rfl, by simp, rfl, hm⟩
      · rintro ⟨pre, m', post, hms, hpre, he, -⟩
        cases pre with
        | nil =>
          cases hms
          exact ⟨_, by rw [he]⟩
        | cons a pre =>
          cases hms
          exact absurd (hpre m (List.mem_cons_self _ _)) hm

theorem initializeFeatures_append (root : Node) (ms₁ ms₂ : List Metadata) :
    initializeFeatures root (ms₁ ++ ms₂) = (initializeFeatures root ms₁ >>= fun _ => initializeFeatures root ms₂) := by
  induction ms₁ with
  | nil => simp [initializeFeatures]
  | cons m ms₁ ih => rw [List.cons_append, initializeFeatures, initializeFeatures, ih, bind_assoc]

/-- `Initialize` reports `FDSNotRecordError` for a root that is not a record;
otherwise it fails exactly when a declared feature does not bind, and reports
the status of the first one, taking the dense, sparse and varlen features in
that order. -/
theorem initializeSchema_eq_error {schema : ValidSchema} {st : FDSDecoder} {e : Status} :
    (∃ st', initializeSchema schema st = .error e st') ↔
      (schema.root.type ≠ .record ∧ e = .fdsNotRecord schema.root.type) ∨
      (schema.root.type = .record ∧ ∃ pre m post, st.declared = pre ++ m :: post ∧
        (∀ m' ∈ pre, featureStatus schema.root m' = .ok) ∧ featureStatus schema.root m = e ∧ e ≠ .ok) := by
  unfold initializeSchema
  by_cases hr : schema.root.type = .record
  · rw [if_neg (not_not.mpr hr), bind_ok (pure_run _ _)]
    dsimp only
    rw [bind_ok (modify_run _ _), bind_ok (get_run _)]
    simp only [← bind_assoc, ← initializeFeatures_append, ← List.append_assoc]
    simp only [hr, ne_eq, not_true_eq_false, false_and, true_and, false_or]
    constructor
    · rintro ⟨st', h⟩
      refine (@initializeFeatures_eq_error schema.root e st.declared (st.resizeColumns schema.root.leaves)).mp
        ⟨st', ?_⟩
      rcases bind_eq_error h with h | ⟨_, s₁, -, h⟩
      · rcases bind_eq_error h with h | ⟨_, s₂, -, h⟩
        · exact h
        · cases h
      · cases h
    · intro hx
      obtain ⟨st', h⟩ :=
        (@initializeFeatures_eq_error schema.root e st.declared (st.resizeColumns schema.root.leaves)).mpr hx
      exact ⟨st', bind_error (bind_error h)⟩
  · rw [if_pos hr, bind_error (throw_run _ _)]
    simp [hr, eq_comm]

/-- The state a successful `Initialize(schema)` leaves. -/
def initialized (schema : ValidSchema) (st : FDSDecoder) : FDSDecoder :=
  { installOpaque schema.root schema.root.leaves 0 0
      (st.declared.foldl (declare schema.root) (st.resizeColumns schema.root.leaves)) with schema := schema }

@[simp] theorem declared_resizeColumns (st : FDSDecoder) (n : Nat) : (st.resizeColumns n).declared = st.declared :=
  rfl

@[simp] theorem denseFeatures_resizeColumns (st : FDSDecoder) (n : Nat) :
    (st.resizeColumns n).denseFeatures = st.denseFeatures := rfl

@[simp] theorem sparseFeatures_resizeColumns (st : FDSDecoder) (n : Nat) :
    (st.resizeColumns n).sparseFeatures = st.sparseFeatures := rfl

@[simp] theorem varlenFeatures_resizeColumns (st : FDSDecoder) (n : Nat) :
    (st.resizeColumns n).varlenFeatures = st.varlenFeatures := rfl

@[simp] theorem declared_declare (root : Node) (st : FDSDecoder) (m : Metadata) :
    (declare root st m).declared = st.declared := by
  unfold declare; split <;> rfl

theorem declared_foldl_declare (root : Node) (ms : List Metadata) (st : FDSDecoder) :
    (ms.foldl (declare root) st).declared = st.declared := by
  induction ms generalizing st <;> simp [*]

theorem initializeSchema_eq_ok {schema : ValidSchema} {st st' : FDSDecoder} :
    initializeSchema schema st = .ok () st' ↔
      schema.root.type = .record ∧ (∀ m ∈ st.declared, featureStatus schema.root m = .ok) ∧
        st' = initialized schema st := by
  unfold initializeSchema
  by_cases hr : schema.root.type = .record
  · rw [if_neg (not_not.mpr hr), bind_ok (pure_run _ _)]
    dsimp only
    rw [bind_ok (modify_run _ _), bind_ok (get_run _)]
    simp only [hr, true_and, initialized, FDSDecoder.declared, List.forall_mem_append, List.foldl_append,
      denseFeatures_resizeColumns, sparseFeatures_resizeColumns, varlenFeatures_resizeColumns]
    constructor
    · intro h
      obtain ⟨⟨⟩, s₁, h₁, h⟩ := bind_eq_ok h
      obtain ⟨⟨⟩, s₂, h₂, h⟩ := bind_eq_ok h
      obtain ⟨⟨⟩, s₃, h₃, h⟩ := bind_eq_ok h
      obtain ⟨⟨⟩, s₄, h₄, h⟩ := bind_eq_ok h
      rw [modify_eq_ok] at h₄ h
      subst h₄ h
      obtain ⟨hd, rfl⟩ := initializeFeatures_eq_ok.mp h₁
      obtain ⟨hs, rfl⟩ := initializeFeatures_eq_ok.mp h₂
      obtain ⟨hv, rfl⟩ := initializeFeatures_eq_ok.mp h₃
      exact ⟨⟨⟨hd, hs⟩, hv⟩, rfl⟩
    · rintro ⟨⟨⟨hd, hs⟩, hv⟩, rfl⟩
      rw [bind_ok (initializeFeatures_eq_ok.mpr ⟨hd, rfl⟩), bind_ok (initializeFeatures_eq_ok.mpr ⟨hs, rfl⟩),
        bind_ok (initializeFeatures_eq_ok.mpr ⟨hv, rfl⟩), bind_ok (modify_run _ _), modify_run]
  · rw [if_pos hr, bind_error (throw_run _ _)]
    simp [hr]

theorem length_resize (l : List α) (n : Nat) (a : α) : (resize l n a).length = n := by
  simp [resize]; omega

theorem getElem?_resize (l : List α) (n : Nat) (a : α) (p : Nat) :
    (resize l n a)[p]? = if p < n then some (l[p]?.getD a) else none := by
  unfold resize
  rw [List.getElem?_append, List.length_take]
  by_cases hp : p < n
  · rw [if_pos hp]
    by_cases hl : p < l.length
    · rw [if_pos (by omega), List.getElem?_take_of_lt hp, List.getElem?_eq_getElem hl]; rfl
    · rw [if_neg (by omega), List.getElem?_replicate, if_pos (by omega), List.getElem?_eq_none (by omega)]; rfl
  · rw [if_neg hp, if_neg (by omega), List.getElem?_eq_none]
    simp; omega

theorem resize_of_length_eq {l : List α} {n : Nat} (h : l.length = n) (a : α) : resize l n a = l := by
  simp [resize, ← h]

theorem getElem?_foldl_set (pos : α → Option Nat) (val : α → Nat → β) (ms : List α) (l : List β) (p : Nat) :
    (ms.foldl (fun l m => (pos m).elim l fun i => l.set i (val m i)) l)[p]? =
      l[p]?.map fun x => (((ms.filter fun m => pos m = some p).getLast?).map (val · p)).getD x := by
  induction ms generalizing l with
  | nil => simp
  | cons m ms ih =>
    rw [List.foldl_cons, ih, List.filter_cons]
    cases hm : pos m with
    | none => simp
    | some i =>
      by_cases hi : i = p
      · subst hi
        simp only [Option.elim, List.getElem?_set_self', eq_self_iff_true, decide_True, if_true,
          List.getLast?_cons, Option.map_map]
        cases l[i]? <;> cases (ms.filter fun m => pos m = some i).getLast? <;> rfl
      · simp [Option.elim, List.getElem?_set_ne hi, hi]

/-- The declared feature a column is bound to: the last one naming it. -/
def claimant (root : Node) (ms : List Metadata) (p : Nat) : Option Metadata :=
  (ms.filter fun m => root.nameIndex m.name = some p).getLast?

section Declare

variable (root : Node) (ms : List Metadata) (st : FDSDecoder) (p : Nat)

theorem getElem?_decoderTypes_foldl :
    (ms.foldl (declare root) st).decoderTypes[p]? =
      st.decoderTypes[p]?.map fun t => ((claimant root ms p).map (·.type)).getD t := by
  rw [← List.foldl_hom FDSDecoder.decoderTypes (declare root)
    (fun l m => (root.nameIndex m.name).elim l fun i => l.set i m.type) ms st
    (fun st m => by unfold declare; dsimp only; cases root.nameIndex m.name <;> rfl),
    getElem?_foldl_set (fun m : Metadata => root.nameIndex m.name) (fun (m : Metadata) _ => m.type)]
  rfl

theorem getElem?_featureNames_foldl :
    (ms.foldl (declare root) st).featureNames[p]? =
      st.featureNames[p]?.map fun x => ((claimant root ms p).map (·.name)).getD x := by
  rw [← List.foldl_hom FDSDecoder.featureNames (declare root)
    (fun l m => (root.nameIndex m.name).elim l fun i => l.set i m.name) ms st
    (fun st m => by unfold declare; dsimp only; cases root.nameIndex m.name <;> rfl),
    getElem?_foldl_set (fun m : Metadata => root.nameIndex m.name) (fun (m : Metadata) _ => m.name)]
  rfl

theorem getElem?_decoders_foldl :
    (ms.foldl (declare root) st).decoders[p]? =
      st.decoders[p]?.map fun d => ((claimant root ms p).map fun m => some (planEntry (root.leafAt p) m)).getD d := by
  rw [← List.foldl_hom FDSDecoder.decoders (declare root)
    (fun l m => (root.nameIndex m.name).elim l fun i => l.set i (some (planEntry (root.leafAt i) m))) ms st
    (fun st m => by unfold declare; dsimp only; cases root.nameIndex m.name <;> rfl),
    getElem?_foldl_set (fun m => root.nameIndex m.name) (fun m i => some (planEntry (root.leafAt i) m))]
  rfl

theorem skippedData_foldl : (ms.foldl (declare root) st).skippedData = st.skippedData := by
  induction ms generalizing st with
  | nil => rfl
  | cons m ms ih => rw [List.foldl_cons, ih]; unfold declare; split <;> rfl

end Declare

/-- The columns among `range' i k` that the opaque loop claims. -/
def opaqueColumns (types : List FeatureType) (i k : Nat) : List Nat :=
  (List.range' i k).filter fun q => types[q]? = some .opaqueContextual

section Opaque

variable (root : Node)

theorem decoderTypes_installOpaque :
    ∀ (k i j : Nat) (st : FDSDecoder), (installOpaque root k i j st).decoderTypes = st.decoderTypes
  | 0, _, _, _ => rfl
  | k + 1, i, j, st => by
    unfold installOpaque
    split <;> exact decoderTypes_installOpaque _ _ _ _

theorem skippedData_installOpaque :
    ∀ (k i j : Nat) (st : FDSDecoder), (installOpaque root k i j st).skippedData =
      st.skippedData ++ (opaqueColumns st.decoderTypes i k).map fun q => GenericDatum.ofNode (root.leafAt q)
  | 0, _, _, _ => by simp [installOpaque, opaqueColumns]
  | k + 1, i, j, st => by
    unfold installOpaque
    split <;> rename_i h <;> rw [skippedData_installOpaque] <;>
      simp [opaqueColumns, List.range'_succ, List.filter_cons, h]

theorem opaqueColumns_succ (types : List FeatureType) (i k : Nat) :
    opaqueColumns types i (k + 1) =
      if types[i]? = some .opaqueContextual then i :: opaqueColumns types (i + 1) k
      else opaqueColumns types (i + 1) k := by
  simp only [opaqueColumns, List.range'_succ, List.filter_cons, decide_eq_true_eq]

theorem window_succ_iff {i p k : Nat} (hp : p ≠ i) {Q : Prop} :
    (i + 1 ≤ p ∧ p < i + 1 + k ∧ Q) ↔ (i ≤ p ∧ p < i + (k + 1) ∧ Q) :=
  ⟨fun h => ⟨by omega, by omega, h.2.2⟩, fun h => ⟨by omega, by omega, h.2.2⟩⟩

theorem length_opaqueColumns_sub (types : List FeatureType) {i p : Nat} (hip : i < p) :
    (opaqueColumns types i (p - i)).length =
      (if types[i]? = some .opaqueContextual then 1 else 0) + (opaqueColumns types (i + 1) (p - (i + 1))).length := by
  obtain ⟨t, ht⟩ : ∃ t, p - i = t + 1 := ⟨p - i - 1, by omega⟩
  rw [ht, opaqueColumns_succ, show p - (i + 1) = t by omega]
  split <;> simp only [List.length_cons, Nat.add_comm, Nat.zero_add]

theorem getElem?_decoders_installOpaque :
    ∀ (k i j : Nat) (st : FDSDecoder) (p : Nat), (installOpaque root k i j st).decoders[p]? =
      if i ≤ p ∧ p < i + k ∧ st.decoderTypes[p]? = some .opaqueContextual then
        st.decoders[p]?.map fun _ => some (.opaqueContextual (j + (opaqueColumns st.decoderTypes i (p - i)).length))
      else st.decoders[p]?
  | 0, i, j, st, p => by rw [if_neg (by omega)]; rfl
  | k + 1, i, j, st, p => by
    unfold installOpaque
    by_cases hp : p = i
    · subst hp
      split <;> rename_i hi <;> rw [getElem?_decoders_installOpaque, if_neg (by omega)]
      · rw [if_pos (And.intro le_rfl (And.intro (by omega) hi)), List.getElem?_set_self', Nat.sub_self]; rfl
      · rw [if_neg fun h => hi h.2.2]
    · split <;> rename_i hi <;> rw [getElem?_decoders_installOpaque] <;>
        refine ite_congr (propext (window_succ_iff hp)) (fun hr => ?_) fun _ => ?_
      · rw [length_opaqueColumns_sub _ (lt_of_le_of_ne hr.1 (Ne.symm hp)), if_pos hi]
        exact congrArg₂ _ (funext fun _ => by rw [Nat.add_assoc]) (List.getElem?_set_ne (Ne.symm hp))
      · exact List.getElem?_set_ne (Ne.symm hp)
      · rw [length_opaqueColumns_sub _ (lt_of_le_of_ne hr.1 (Ne.symm hp)), if_neg hi, Nat.zero_add]
      · rfl

theorem getElem?_featureNames_installOpaque :
    ∀ (k i j : Nat) (st : FDSDecoder) (p : Nat), (installOpaque root k i j st).featureNames[p]? =
      if i ≤ p ∧ p < i + k ∧ st.decoderTypes[p]? = some .opaqueContextual ∧ (root.leafAt p).hasName then
        st.featureNames[p]?.map fun _ => (root.leafAt p).name
      else st.featureNames[p]?
  | 0, i, j, st, p => by rw [if_neg (by omega)]; rfl
  | k + 1, i, j, st, p => by
    unfold installOpaque
    by_cases hp : p = i
    · subst hp
      split <;> rename_i hi <;> rw [getElem?_featureNames_installOpaque, if_neg (by omega)]
      · dsimp only
        by_cases hn : (root.leafAt p).hasName
        · rw [if_pos hn, if_pos ⟨le_rfl, by omega, hi, hn⟩, List.getElem?_set_self']; rfl
        · rw [if_neg hn, if_neg fun h => hn h.2.2.2]
      · rw [if_neg fun h => hi h.2.2.1]
    · have hset (l : List String) (b : Bool) (x : String) : (if b then l.set i x else l)[p]? = l[p]? := by
        split <;> simp [List.getElem?_set_ne (Ne.symm hp)]
      split <;> rw [getElem?_featureNames_installOpaque] <;> simp only [window_succ_iff hp, hset]

theorem installOpaque_eq : ∀ (k i j : Nat) (st : FDSDecoder), installOpaque root k i j st =
    { st with
      decoders := (installOpaque root k i j st).decoders,
      featureNames := (installOpaque root k i j st).featureNames,
      skippedData := (installOpaque root k i j st).skippedData }
  | 0, _, _, _ => rfl
  | k + 1, i, j, st => by
    unfold installOpaque
    split <;> exact (installOpaque_eq _ _ _ _).trans rfl

theorem installOpaque_installOpaque (k i j : Nat) (st : FDSDecoder) :
    installOpaque root k i j (installOpaque root k i j st) =
      { installOpaque root k i j st with
        skippedData := (installOpaque root k i j st).skippedData ++
          (opaqueColumns st.decoderTypes i k).map fun q => GenericDatum.ofNode (root.leafAt q) } := by
  rw [installOpaque_eq root k i j (installOpaque root k i j st)]
  congr 1
  case e_decoders =>
    apply List.ext_getElem?
    intro p
    rw [getElem?_decoders_installOpaque, decoderTypes_installOpaque, getElem?_decoders_installOpaque]
    split <;> simp [Option.map_map, Function.comp_def]
  case e_featureNames =>
    apply List.ext_getElem?
    intro p
    rw [getElem?_featureNames_installOpaque, decoderTypes_installOpaque, getElem?_featureNames_installOpaque]
    split <;> simp [Option.map_map, Function.comp_def]
  case e_skippedData => rw [skippedData_installOpaque, decoderTypes_installOpaque]

end Opaque

section Declare

variable (root : Node) (ms : List Metadata)

theorem foldl_declare_eq (st : FDSDecoder) : ms.foldl (declare root) st =
    { st with
      decoderTypes := (ms.foldl (declare root) st).decoderTypes,
      featureNames := (ms.foldl (declare root) st).featureNames,
      decoders := (ms.foldl (declare root) st).decoders } := by
  induction ms generalizing st with
  | nil => rfl
  | cons m ms ih =>
    rw [List.foldl_cons, ih]
    unfold declare
    cases root.nameIndex m.name <;> rfl

theorem getD_map_getD (c : Option Metadata) (f : Metadata → β) (x : β) :
    (c.map f).getD ((c.map f).getD x) = (c.map f).getD x := by
  cases c <;> rfl

theorem claimant_eq_none_of_skipped {st : FDSDecoder} {p : Nat}
    (h : (ms.foldl (declare root) st).decoderTypes[p]? = some .opaqueContextual) : claimant root ms p = none := by
  rw [getElem?_decoderTypes_foldl] at h
  cases hc : claimant root ms p with
  | none => rfl
  | some m =>
    rw [hc] at h
    obtain ⟨t, -, ht⟩ := Option.map_eq_some'.mp h
    exact absurd ht m.declared

theorem foldl_declare_installOpaque (k i j : Nat) (st : FDSDecoder) :
    ms.foldl (declare root) (installOpaque root k i j (ms.foldl (declare root) st)) =
      installOpaque root k i j (ms.foldl (declare root) st) := by
  rw [foldl_declare_eq root ms]
  congr 1 <;> apply List.ext_getElem? <;> intro p
  case e_decoderTypes =>
    rw [getElem?_decoderTypes_foldl, decoderTypes_installOpaque, getElem?_decoderTypes_foldl, Option.map_map]
    simp only [Function.comp_def, getD_map_getD]
  case e_featureNames =>
    rw [getElem?_featureNames_foldl, getElem?_featureNames_installOpaque]
    split
    · rename_i h
      rw [claimant_eq_none_of_skipped root ms h.2.2.1]
      simp [Function.comp_def]
    · rw [getElem?_featureNames_foldl, Option.map_map]
      simp only [Function.comp_def, getD_map_getD]
  case e_decoders =>
    rw [getElem?_decoders_foldl, getElem?_decoders_installOpaque]
    split
    · rename_i h
      rw [claimant_eq_none_of_skipped root ms h.2.2]
      simp [Function.comp_def]
    · rw [getElem?_decoders_foldl, Option.map_map]
      simp only [Function.comp_def, getD_map_getD]

end Declare

section Initialized

variable (schema : ValidSchema)

theorem length_foldl_declare (root : Node) (ms : List Metadata) (st : FDSDecoder) :
    (ms.foldl (declare root) st).decoderTypes.length = st.decoderTypes.length ∧
      (ms.foldl (declare root) st).featureNames.length = st.featureNames.length ∧
      (ms.foldl (declare root) st).decoders.length = st.decoders.length := by
  induction ms generalizing st with
  | nil => exact ⟨rfl, rfl, rfl⟩
  | cons m ms ih =>
    rw [List.foldl_cons, (ih _).1, (ih _).2.1, (ih _).2.2]
    unfold declare
    cases root.nameIndex m.name <;> simp

theorem length_installOpaque (root : Node) : ∀ (k i j : Nat) (st : FDSDecoder),
    (installOpaque root k i j st).featureNames.length = st.featureNames.length ∧
      (installOpaque root k i j st).decoders.length = st.decoders.length
  | 0, _, _, _ => ⟨rfl, rfl⟩
  | k + 1, i, j, st => by
    unfold installOpaque
    split
    · rw [(length_installOpaque root k _ _ _).1, (length_installOpaque root k _ _ _).2]
      dsimp only
      split <;> simp
    · exact length_installOpaque root k _ _ _

theorem installOpaque_with_schema (root : Node) (s : ValidSchema) : ∀ (k i j : Nat) (st : FDSDecoder),
    installOpaque root k i j { st with schema := s } = { installOpaque root k i j st with schema := s }
  | 0, _, _, _ => rfl
  | k + 1, i, j, st => by
    by_cases h : st.decoderTypes[i]? = some .opaqueContextual
    · simp only [installOpaque, h, if_true]
      exact installOpaque_with_schema root s k (i + 1) (j + 1) { st with
        decoders := st.decoders.set i (some (.opaqueContextual j)),
        skippedData := st.skippedData ++ [GenericDatum.ofNode (root.leafAt i)],
        featureNames := if (root.leafAt i).hasName then st.featureNames.set i (root.leafAt i).name
          else st.featureNames }
    · simp only [installOpaque, h, if_false]
      exact installOpaque_with_schema root s k (i + 1) j st

theorem foldl_declare_with_schema (root : Node) (s : ValidSchema) (ms : List Metadata) (st : FDSDecoder) :
    ms.foldl (declare root) { st with schema := s } = { ms.foldl (declare root) st with schema := s } := by
  induction ms generalizing st with
  | nil => rfl
  | cons m ms ih =>
    rw [List.foldl_cons, List.foldl_cons, ← ih]
    unfold declare
    cases root.nameIndex m.name <;> rfl

@[simp] theorem declared_initialized (st : FDSDecoder) : (initialized schema st).declared = st.declared := by
  rw [initialized, installOpaque_eq]
  exact declared_foldl_declare _ _ _

theorem decoderTypes_initialized (st : FDSDecoder) : (initialized schema st).decoderTypes =
    (st.declared.foldl (declare schema.root) (st.resizeColumns schema.root.leaves)).decoderTypes :=
  decoderTypes_installOpaque _ _ _ _ _

theorem length_initialized (st : FDSDecoder) :
    (initialized schema st).featureNames.length = schema.root.leaves ∧
      (initialized schema st).decoderTypes.length = schema.root.leaves ∧
      (initialized schema st).decoders.length = schema.root.leaves := by
  have hf := length_foldl_declare schema.root st.declared (st.resizeColumns schema.root.leaves)
  have ho := length_installOpaque schema.root schema.root.leaves 0 0
    (st.declared.foldl (declare schema.root) (st.resizeColumns schema.root.leaves))
  simp only [FDSDecoder.resizeColumns, length_resize] at hf
  exact ⟨ho.1.trans hf.2.1, (congrArg List.length (decoderTypes_installOpaque _ _ _ _ _)).trans hf.1,
    ho.2.trans hf.2.2⟩

theorem resizeColumns_initialized (st : FDSDecoder) :
    (initialized schema st).resizeColumns schema.root.leaves = initialized schema st := by
  obtain ⟨h₁, h₂, h₃⟩ := length_initialized schema st
  unfold FDSDecoder.resizeColumns
  rw [resize_of_length_eq h₁, resize_of_length_eq h₂, resize_of_length_eq h₃]

theorem initialized_initialized (st : FDSDecoder) :
    initialized schema (initialized schema st) =
      { initialized schema st with
        skippedData := (initialized schema st).skippedData ++
          (opaqueColumns (initialized schema st).decoderTypes 0 schema.root.leaves).map
            fun q => GenericDatum.ofNode (schema.root.leafAt q) } := by
  conv_lhs => rw [initialized, resizeColumns_initialized, declared_initialized]
  rw [initialized, foldl_declare_with_schema, foldl_declare_installOpaque, installOpaque_with_schema,
    installOpaque_installOpaque, decoderTypes_installOpaque]

theorem claimant_eq_of_nameIndex {root : Node} (hnd : root.fieldNames.Nodup) {ms : List Metadata}
    {name : String} {p : Nat} (hp : root.nameIndex name = some p) :
    claimant root ms p = (ms.filter fun m' => m'.name = name).getLast? := by
  have hf := (Node.nameIndex_eq_some_iff hnd).mp hp
  unfold claimant
  congr 1
  apply List.filter_congr
  intro m' _
  apply decide_eq_decide.mpr
  rw [Node.nameIndex_eq_some_iff hnd, hf, Option.some.injEq]
  exact eq_comm

theorem getElem?_resizeColumns_decoderTypes (st : FDSDecoder) {n p : Nat} (hp : p < n) :
    ∃ t, (st.resizeColumns n).decoderTypes[p]? = some t := by
  simp [FDSDecoder.resizeColumns, getElem?_resize, hp]

end Initialized

theorem length_filter_range_lt {P : Nat → Bool} {p n : Nat} (hp : p < n) (hP : P p = true) :
    ((List.range p).filter P).length < ((List.range n).filter P).length := by
  obtain ⟨t, rfl⟩ : ∃ t, n = p + 1 + t := ⟨n - p - 1, by omega⟩
  rw [List.range_add, List.range_succ, List.filter_append, List.filter_append, List.length_append,
    List.length_append, List.filter_singleton, hP]
  simp only [cond_true, List.length_singleton]
  omega

theorem getElem?_filter_range_eq_some {P : Nat → Bool} {n j p : Nat} :
    ((List.range n).filter P)[j]? = some p ↔ p < n ∧ P p = true ∧ ((List.range p).filter P).length = j := by
  induction n with
  | zero => simp
  | succ n ih =>
    rw [List.range_succ, List.filter_append, List.getElem?_append]
    split
    · rename_i hj
      rw [ih]
      constructor
      · rintro ⟨hp, hP, rfl⟩; exact ⟨by omega, hP, rfl⟩
      · rintro ⟨hp, hP, rfl⟩
        rcases Nat.lt_or_ge p n with hpn | hpn
        · exact ⟨hpn, hP, rfl⟩
        · exact absurd hj (by rw [show p = n by omega]; omega)
    · rename_i hj
      rw [List.filter_singleton]
      constructor
      · intro h
        cases hn : P n
        · rw [hn] at h; simp at h
        · rw [hn, cond_true] at h
          obtain ⟨hk, hnp⟩ := List.getElem?_eq_some_iff.mp h
          simp only [List.length_singleton, List.getElem_singleton] at hk hnp
          subst hnp
          exact ⟨by omega, hn, by omega⟩
      · rintro ⟨hp, hP, rfl⟩
        rcases Nat.lt_or_ge p n with hpn | hpn
        · exact absurd (length_filter_range_lt hpn hP) hj
        · obtain rfl : p = n := by omega
          simp [hP]

section Fresh

variable {dense sparse varlen : List Metadata} {schema : ValidSchema}

/-- The columns of `schema` named by no declared feature. -/
def unusedColumns (schema : ValidSchema) (decls : List Metadata) : List Nat :=
  (List.range schema.root.leaves).filter fun p => decls.all fun m => schema.root.fieldNames[p]? ≠ some m.name

theorem claimant_eq_none_iff (decls : List Metadata) (p : Nat) :
    claimant schema.root decls p = none ↔ decls.all fun m => schema.root.fieldNames[p]? ≠ some m.name := by
  simp only [claimant, List.getLast?_eq_none_iff, List.filter_eq_nil_iff, List.all_eq_true, decide_eq_true_eq,
    Node.nameIndex_eq_some_iff schema.fieldNames_nodup, decide_not, Bool.not_eq_true', decide_eq_false_iff_not]

theorem getElem?_decoderTypes_fresh (p : Nat) :
    let decls := (FDSDecoder.new dense sparse varlen).declared
    (decls.foldl (declare schema.root) ((FDSDecoder.new dense sparse varlen).resizeColumns schema.root.leaves)).decoderTypes[p]?
      = some .opaqueContextual ↔
      p < schema.root.leaves ∧ decls.all fun m => schema.root.fieldNames[p]? ≠ some m.name := by
  intro decls
  rw [getElem?_decoderTypes_foldl, ← claimant_eq_none_iff]
  simp only [FDSDecoder.resizeColumns, decoderTypes_new, getElem?_resize, List.getElem?_nil, Option.getD_none]
  split
  · cases hc : claimant schema.root decls p with
    | none => simp [*]
    | some m => simp [*, m.declared]
  · simp [*]

theorem planEntry_ne_opaqueContextual (node : Node) (m : Metadata) (j : Nat) : planEntry node m ≠ .opaqueContextual j := by
  unfold planEntry; split <;> exact fun h => nomatch h

theorem opaqueColumns_fresh {k : Nat} (hk : k ≤ schema.root.leaves) :
    let decls := (FDSDecoder.new dense sparse varlen).declared
    opaqueColumns (decls.foldl (declare schema.root)
        ((FDSDecoder.new dense sparse varlen).resizeColumns schema.root.leaves)).decoderTypes 0 k =
      (List.range k).filter fun p => decls.all fun m => schema.root.fieldNames[p]? ≠ some m.name := by
  intro decls
  rw [opaqueColumns, ← List.range_eq_range']
  apply List.filter_congr
  intro q hq
  have := (@getElem?_decoderTypes_fresh dense sparse varlen schema q)
  have hq' : q < schema.root.leaves := Nat.lt_of_lt_of_le (List.mem_range.mp hq) hk
  simp only [hq', true_and] at this
  exact Bool.eq_iff_iff.mpr (by simpa using this)

theorem getElem?_decoders_fresh {st : FDSDecoder}
    (h : initializeSchema schema (FDSDecoder.new dense sparse varlen) = .ok () st) (p j : Nat) :
    st.decoders[p]? = some (some (.opaqueContextual j)) ↔
      (unusedColumns schema (FDSDecoder.new dense sparse varlen).declared)[j]? = some p := by
  obtain ⟨-, -, rfl⟩ := initializeSchema_eq_ok.mp h
  show (installOpaque _ _ _ _ _).decoders[p]? = _ ↔ _
  rw [getElem?_decoders_installOpaque, unusedColumns, getElem?_filter_range_eq_some, getElem?_decoders_foldl]
  have hR (hp : p < schema.root.leaves) :
      ((FDSDecoder.new dense sparse varlen).resizeColumns schema.root.leaves).decoders[p]? = some none := by
    simp [FDSDecoder.resizeColumns, getElem?_resize, hp]
  split
  · rename_i hc
    have hu := (getElem?_decoderTypes_fresh p).mp hc.2.2
    rw [Nat.sub_zero, opaqueColumns_fresh (Nat.le_of_lt hu.1), hR hu.1, (claimant_eq_none_iff _ p).mpr hu.2]
    simp only [Option.map_some', Option.map_none', Option.getD_none, Option.some.injEq,
      FeatureDecoder.opaqueContextual.injEq, Nat.zero_add, hu.1, hu.2, true_and]
  · rename_i hc
    by_cases hp : p < schema.root.leaves
    · have hu : ¬((FDSDecoder.new dense sparse varlen).declared.all
          fun m => schema.root.fieldNames[p]? ≠ some m.name) = true :=
        fun hu => hc ⟨Nat.zero_le _, by omega, (getElem?_decoderTypes_fresh p).mpr ⟨hp, hu⟩⟩
      obtain ⟨m, hm⟩ : ∃ m, claimant schema.root (FDSDecoder.new dense sparse varlen).declared p = some m := by
        cases hcl : claimant schema.root (FDSDecoder.new dense sparse varlen).declared p with
        | none => exact absurd ((claimant_eq_none_iff _ p).mp hcl) hu
        | some m => exact ⟨m, rfl⟩
      rw [hR hp, hm]
      simp only [Option.map_some', Option.getD_some, Option.some.injEq, planEntry_ne_opaqueContextual, false_iff]
      exact fun h' => hu h'.2.1
    · simp [FDSDecoder.resizeColumns, getElem?_resize, hp]

theorem skippedData_fresh {st : FDSDecoder}
    (h : initializeSchema schema (FDSDecoder.new dense sparse varlen) = .ok () st) :
    st.skippedData = (unusedColumns schema (FDSDecoder.new dense sparse varlen).declared).map
      fun p => GenericDatum.ofNode (schema.root.leafAt p) := by
  obtain ⟨-, -, rfl⟩ := initializeSchema_eq_ok.mp h
  show (installOpaque _ _ _ _ _).skippedData = _
  rw [skippedData_installOpaque, skippedData_foldl, opaqueColumns_fresh le_rfl]
  rfl

theorem getElem?_skippedData_fresh {st : FDSDecoder}
    (h : initializeSchema schema (FDSDecoder.new dense sparse varlen) = .ok () st) {p j : Nat}
    (hpj : st.decoders[p]? = some (some (.opaqueContextual j))) :
    st.skippedData[j]? = some (GenericDatum.ofNode (schema.root.leafAt p)) := by
  rw [skippedData_fresh h, List.getElem?_map, (getElem?_decoders_fresh h p j).mp hpj]
  rfl

end Fresh

theorem exists_nameIndex_of_featureStatus {root : Node} {m : Metadata} (h : featureStatus root m = .ok) :
    ∃ p, root.nameIndex m.name = some p := by
  unfold featureStatus at h
  split at h
  · cases h
  · exact ⟨_, ‹_›⟩

theorem getElem?_initialized_of_claimant {schema : ValidSchema} {st : FDSDecoder} {p : Nat} {m : Metadata}
    (hp : p < schema.root.leaves) (hclaim : claimant schema.root st.declared p = some m) :
    (initialized schema st).decoders[p]? = some (some (planEntry (schema.root.leafAt p) m)) ∧
      (initialized schema st).decoderTypes[p]? = some m.type ∧
      (initialized schema st).featureNames[p]? = some m.name := by
  obtain ⟨t, ht⟩ := getElem?_resizeColumns_decoderTypes st hp
  have htype : (st.declared.foldl (declare schema.root) (st.resizeColumns schema.root.leaves)).decoderTypes[p]? =
      some m.type := by
    rw [getElem?_decoderTypes_foldl, ht, hclaim]; rfl
  have hno : ¬(0 ≤ p ∧ p < 0 + schema.root.leaves ∧
      (st.declared.foldl (declare schema.root) (st.resizeColumns schema.root.leaves)).decoderTypes[p]? =
        some .opaqueContextual) := fun h' => m.declared (Option.some.inj (htype.symm.trans h'.2.2))
  refine ⟨?_, ?_, ?_⟩
  · show (installOpaque _ _ _ _ _).decoders[p]? = _
    rw [getElem?_decoders_installOpaque, if_neg hno, getElem?_decoders_foldl, hclaim]
    simp [FDSDecoder.resizeColumns, getElem?_resize, hp]
  · show (installOpaque _ _ _ _ _).decoderTypes[p]? = _
    rw [decoderTypes_installOpaque, htype]
  · show (installOpaque _ _ _ _ _).featureNames[p]? = _
    rw [getElem?_featureNames_installOpaque, if_neg fun h' => hno ⟨h'.1, h'.2.1, h'.2.2.1⟩,
      getElem?_featureNames_foldl, hclaim]
    simp [FDSDecoder.resizeColumns, getElem?_resize, hp]

/-- Every declared feature that is the last one naming its field is bound at
that field: its decoder (wrapped exactly when the field is a union), its type
and its name. -/
theorem initializeSchema_binds_last {schema : ValidSchema} {st st' : FDSDecoder}
    (h : initializeSchema schema st = .ok () st') {m : Metadata}
    (hm : (st.declared.filter fun m' => m'.name = m.name).getLast? = some m) :
    ∃ p, schema.root.nameIndex m.name = some p ∧
      st'.decoders[p]? = some (some (planEntry (schema.root.leafAt p) m)) ∧
      st'.decoderTypes[p]? = some m.type ∧ st'.featureNames[p]? = some m.name := by
  obtain ⟨-, hall, rfl⟩ := initializeSchema_eq_ok.mp h
  have hmem : m ∈ st.declared := (List.mem_filter.mp (List.mem_of_getLast?_eq_some hm)).1
  obtain ⟨p, hp⟩ := exists_nameIndex_of_featureStatus (hall m hmem)
  exact ⟨p, hp, getElem?_initialized_of_claimant (Node.lt_leaves_of_nameIndex hp)
    ((claimant_eq_of_nameIndex schema.fieldNames_nodup hp).trans hm)⟩

/-- Two dense features naming field `a`: the second is the last one, and binds
column `0`. -/
theorem initializeSchema_binds_second :
    let a₀ : Metadata := ⟨.dense, "a", .int32, [], 0, 0, 0, by decide⟩
    let a₁ : Metadata := { a₀ with tensorIndex := 1 }
    ∃ st', initializeSchema ⟨.record "r" [("a", .int)], rfl⟩ (FDSDecoder.new [a₀, a₁] [] []) = .ok () st' ∧
      ∃ p, (Node.record "r" [("a", .int)]).nameIndex a₁.name = some p ∧
        st'.decoders[p]? = some (some (planEntry ((Node.record "r" [("a", .int)]).leafAt p) a₁)) ∧
        st'.decoderTypes[p]? = some a₁.type ∧ st'.featureNames[p]? = some a₁.name := by
  intro a₀ a₁
  obtain ⟨st', h⟩ : ∃ st', initializeSchema ⟨.record "r" [("a", .int)], rfl⟩ (FDSDecoder.new [a₀, a₁] [] []) =
      .ok () st' := ⟨_, rfl⟩
  exact ⟨st', h, initializeSchema_binds_last h (m := a₁) rfl⟩

/-- Two dense features naming the same field: `Initialize` succeeds, and the
plan holds only the decoder of the second; the first is dropped. -/
theorem initializeSchema_drops_duplicate :
    let a₀ : Metadata := ⟨.dense, "a", .int32, [], 0, 0, 0, by decide⟩
    let a₁ : Metadata := { a₀ with tensorIndex := 1 }
    a₀ ≠ a₁ ∧ ∃ st, initializeSchema ⟨.record "r" [("a", .int)], rfl⟩ (FDSDecoder.new [a₀, a₁] [] []) = .ok () st ∧
      st.decoders = [some (.column .int a₁)] :=
  ⟨by decide, _, rfl, rfl⟩

/-- On a fresh decoder, a second `Initialize` with the same schema succeeds,
keeps the plan and the schema, and doubles the skipped data. -/
theorem initializeSchema_twice {dense sparse varlen : List Metadata} {schema : ValidSchema} {st : FDSDecoder}
    (h : initializeSchema schema (FDSDecoder.new dense sparse varlen) = .ok () st) :
    initializeSchema schema st = .ok () { st with skippedData := st.skippedData ++ st.skippedData } := by
  obtain ⟨hr, hall, rfl⟩ := initializeSchema_eq_ok.mp h
  refine initializeSchema_eq_ok.mpr ⟨hr, by rwa [declared_initialized], ?_⟩
  rw [initialized_initialized]
  congr 2
  show (installOpaque _ _ _ _ _).skippedData = _
  rw [skippedData_installOpaque, skippedData_foldl, decoderTypes_initialized]
  rfl

/-- A schema with a declared and an unused column: the second `Initialize`
succeeds. -/
theorem initializeSchema_twice_mixed :
    let m : Metadata := ⟨.dense, "a", .int32, [], 0, 0, 0, by decide⟩
    ∃ st, initializeSchema ⟨.record "r" [("a", .int), ("b", .long)], rfl⟩ (FDSDecoder.new [m] [] []) = .ok () st ∧
      initializeSchema ⟨.record "r" [("a", .int), ("b", .long)], rfl⟩ st =
        .ok () { st with skippedData := st.skippedData ++ st.skippedData } := by
  intro m
  obtain ⟨st, h⟩ : ∃ st, initializeSchema ⟨.record "r" [("a", .int), ("b", .long)], rfl⟩
      (FDSDecoder.new [m] [] []) = .ok () st := ⟨_, rfl⟩
  exact ⟨st, h, initializeSchema_twice h⟩

/-- A schema with one unused column: the first `Initialize` leaves one skipped
datum, the second two. -/
theorem initializeSchema_twice_skipped :
    ∃ st₁ st₂, initializeSchema ⟨.record "r" [("a", .int)], rfl⟩ (FDSDecoder.new [] [] []) = .ok () st₁ ∧
      initializeSchema ⟨.record "r" [("a", .int)], rfl⟩ st₁ = .ok () st₂ ∧
      st₁.skippedData.length = 1 ∧ st₂.skippedData.length = 2 :=
  ⟨_, _, rfl, rfl, rfl, rfl⟩

end AvroFds.Fds
