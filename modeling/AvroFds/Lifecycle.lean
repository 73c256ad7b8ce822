import AvroFds.Projection

/-!
The lifecycle of an `FDSDecoder`: `Initialize` may be called again on a
decoder, with any schema and whether the earlier calls returned OK or not.
A failed call is not undone: `resize` has run, the features before the failing
one are bound, and `decoder_types_[pos]` is already written when
`ValidateSchema` rejects the feature. A later call keeps what `resize` keeps, so
a column no declared feature names keeps its earlier type and decoder, and it
never clears `skipped_data_` while it numbers its opaque decoders from `0`
again. On a fresh decoder, with features of distinct names, the plan does not
depend on the order of the features within each list.
-/

namespace AvroFds.Fds

open Schema Buffer

theorem getElem?_initialized_of_unclaimed {schema : ValidSchema} {st : FDSDecoder} {p : Nat}
    (hp : p < schema.root.leaves) (hclaim : claimant schema.root st.declared p = none) :
    (st.decoderTypes[p]?.getD .opaqueContextual = .opaqueContextual ∧
        ∃ j, (initialized schema st).decoders[p]? = some (some (.opaqueContextual j))) ∨
      (st.decoderTypes[p]?.getD .opaqueContextual ≠ .opaqueContextual ∧
        (initialized schema st).decoders[p]? = some (st.decoders[p]?.getD none)) := by
  have htype : (st.declared.foldl (declare schema.root) (st.resizeColumns schema.root.leaves)).decoderTypes[p]? =
      some (st.decoderTypes[p]?.getD .opaqueContextual) := by
    rw [getElem?_decoderTypes_foldl, hclaim]
    simp [FDSDecoder.resizeColumns, getElem?_resize, hp]
  have hdec : (st.declared.foldl (declare schema.root) (st.resizeColumns schema.root.leaves)).decoders[p]? =
      some (st.decoders[p]?.getD none) := by
    rw [getElem?_decoders_foldl, hclaim]
    simp [FDSDecoder.resizeColumns, getElem?_resize, hp]
  have hinit : (initialized schema st).decoders[p]? = (installOpaque schema.root schema.root.leaves 0 0
      (st.declared.foldl (declare schema.root) (st.resizeColumns schema.root.leaves))).decoders[p]? := rfl
  rw [hinit, getElem?_decoders_installOpaque, hdec]
  by_cases ht : st.decoderTypes[p]?.getD .opaqueContextual = .opaqueContextual
  · exact .inl ⟨ht, _, by rw [if_pos ⟨Nat.zero_le _, by omega, htype.trans (congrArg some ht)⟩]; rfl⟩
  · exact .inr ⟨ht, by rw [if_neg fun h => ht (Option.some.inj (htype.symm.trans h.2.2))]⟩

theorem claimant_eq_none_of_forall {root : Node} {ms : List Metadata} {p : Nat}
    (hfree : ∀ m ∈ ms, root.nameIndex m.name ≠ some p) : claimant root ms p = none :=
  List.getLast?_eq_none_iff.mpr (List.filter_eq_nil_iff.mpr fun m hm => by simpa using hfree m hm)

/-- After `Initialize(schema)` returns OK, from any state, a column `p` that no
declared feature names holds an opaque decoder if `decoder_types_[p]` was still
`opaque_contextual` before the call (or `p` was past its end), and otherwise
the decoder `decoders_[p]` held before the call, unchanged: a decoder built for
an earlier schema, or none at all. -/
theorem initializeSchema_unclaimed {schema : ValidSchema} {st st' : FDSDecoder}
    (h : initializeSchema schema st = .ok () st') {p : Nat} (hp : p < schema.root.leaves)
    (hfree : ∀ m ∈ st.declared, schema.root.nameIndex m.name ≠ some p) :
    (st.decoderTypes[p]?.getD .opaqueContextual = .opaqueContextual ∧
        ∃ j, st'.decoders[p]? = some (some (.opaqueContextual j))) ∨
      (st.decoderTypes[p]?.getD .opaqueContextual ≠ .opaqueContextual ∧
        st'.decoders[p]? = some (st.decoders[p]?.getD none)) := by
  obtain ⟨-, -, rfl⟩ := initializeSchema_eq_ok.mp h
  exact getElem?_initialized_of_unclaimed hp (claimant_eq_none_of_forall hfree)

/-- A dense `int32` feature `b` first meets a schema whose `b` is a string:
`Initialize` fails after typing column `1` dense. A second `Initialize`, with a
schema whose `b` is column `0`, returns OK with no decoder at column `1`, so
`DecodeFDSDatum` meets a null decoder after column `0`. -/
theorem initializeSchema_unclaimed_after_failure :
    let m : Metadata := ⟨.dense, "b", .int32, [], 0, 0, 0, by decide⟩
    let schema₁ : ValidSchema := ⟨.record "r" [("x", .int), ("b", .string)], rfl⟩
    let schema₂ : ValidSchema := ⟨.record "r" [("b", .int), ("y", .long)], rfl⟩
    ∃ st₁ st₂, initializeSchema schema₁ (FDSDecoder.new [m] [] []) = .error (.schemaMismatch "b") st₁ ∧
      initializeSchema schema₂ st₁ = .ok () st₂ ∧ st₂.decoders[1]? = some none ∧
      ∀ s : Machine, decodeFDSDatum (fun _ _ _ => pure .ok) st₂ 0 s = .error .undefinedBehaviour s := by
  dsimp only
  obtain ⟨st₁, h₁⟩ : ∃ st₁, initializeSchema ⟨.record "r" [("x", .int), ("b", .string)], rfl⟩
      (FDSDecoder.new [⟨.dense, "b", .int32, [], 0, 0, 0, by decide⟩] [] []) =
      .error (.schemaMismatch "b") st₁ := by exact ⟨_, rfl⟩
  obtain ⟨st₂, h₂⟩ : ∃ st₂, initializeSchema ⟨.record "r" [("b", .int), ("y", .long)], rfl⟩ st₁ = .ok () st₂ := by
    cases h₁; exact ⟨_, rfl⟩
  have hnull : st₂.decoders[1]? = some none := by
    rcases initializeSchema_unclaimed h₂ (p := 1) (by decide) (by cases h₁; decide) with ⟨ht, -⟩ | ⟨-, hd⟩
    · cases h₁; cases ht
    · cases h₁; exact hd
  refine ⟨st₁, st₂, h₁, h₂, hnull, fun s => ?_⟩
  cases h₁
  cases h₂
  rfl

/-- The writes of an `InitializeFeatureDecoder` that fails on a field it found:
`decoder_types_[pos]` and `feature_names_[pos]`, written before the union's
shape and `ValidateSchema` are checked. -/
def declareType (root : Node) (st : FDSDecoder) (m : Metadata) : FDSDecoder :=
  match root.nameIndex m.name with
  | none => st
  | some pos => { st with
    decoderTypes := st.decoderTypes.set pos m.type, featureNames := st.featureNames.set pos m.name }

theorem returnIfError_modify_error_state {status e : Status} {g : FDSDecoder → FDSDecoder} {st st' : FDSDecoder}
    (h : (returnIfError status >>= fun _ => modify g) st = .error e st') : st' = st := by
  rcases bind_eq_error h with h | ⟨_, _, -, h⟩
  · rw [returnIfError_run] at h
    split at h <;> cases h
    rfl
  · cases h

theorem initializeFeatureDecoder_error_state {root : Node} {m : Metadata} {st st' : FDSDecoder} {e : Status}
    (h : initializeFeatureDecoder root m st = .error e st') : st' = declareType root st m := by
  revert h
  unfold initializeFeatureDecoder declareType
  cases root.nameIndex m.name with
  | none => intro h; cases h; rfl
  | some pos =>
    intro h
    dsimp only at h ⊢
    rw [bind_ok (modify_run _ _)] at h
    split at h
    · split at h
      · exact returnIfError_modify_error_state h
      · cases h; rfl
    · exact returnIfError_modify_error_state h

theorem initializeFeatures_error_state {root : Node} {e : Status} :
    ∀ {ms : List Metadata} {st st' : FDSDecoder}, initializeFeatures root ms st = .error e st' →
      ∃ pre m post, ms = pre ++ m :: post ∧ (∀ m' ∈ pre, featureStatus root m' = .ok) ∧
        featureStatus root m = e ∧ st' = declareType root (pre.foldl (declare root) st) m
  | [], _, _, h => by cases h
  | m :: ms, st, st', h => by
    rcases bind_eq_error h with h₁ | ⟨_, st₁, h₁, h₂⟩
    · exact ⟨[], m, ms, rfl, nofun, (initializeFeatureDecoder_eq_error.mp ⟨_, h₁⟩).1,
        initializeFeatureDecoder_error_state h₁⟩
    · obtain ⟨hm, rfl⟩ := initializeFeatureDecoder_eq_ok.mp h₁
      obtain ⟨pre, m', post, rfl, hpre, he, rfl⟩ := initializeFeatures_error_state h₂
      exact ⟨m :: pre, m', post, rfl, List.forall_mem_cons.mpr ⟨hm, hpre⟩, he, rfl⟩

/-- A failed `Initialize` is not undone. On a record schema it leaves the
columns resized to the schema, every feature before the failing one bound as a
successful call binds it, and the failing feature's column retyped and renamed
but without its decoder; the skipped data and the retained schema stay those of
before the call. -/
theorem initializeSchema_error_state {schema : ValidSchema} {st st' : FDSDecoder} {e : Status}
    (h : initializeSchema schema st = .error e st') :
    (schema.root.type ≠ .record ∧ st' = st) ∨
      (schema.root.type = .record ∧ ∃ pre m post, st.declared = pre ++ m :: post ∧
        (∀ m' ∈ pre, featureStatus schema.root m' = .ok) ∧ featureStatus schema.root m = e ∧
        st' = declareType schema.root (pre.foldl (declare schema.root) (st.resizeColumns schema.root.leaves)) m) := by
  unfold initializeSchema at h
  by_cases hr : schema.root.type = .record
  · rw [if_neg (not_not.mpr hr), bind_ok (pure_run _ _)] at h
    dsimp only at h
    rw [bind_ok (modify_run _ _), bind_ok (get_run _)] at h
    simp only [← bind_assoc, ← initializeFeatures_append, ← List.append_assoc] at h
    rcases bind_eq_error h with h | ⟨_, _, -, h⟩
    · rcases bind_eq_error h with h | ⟨_, _, -, h⟩
      · exact .inr ⟨hr, initializeFeatures_error_state h⟩
      · cases h
    · cases h
  · rw [if_pos hr] at h
    cases h
    exact .inl ⟨hr, rfl⟩

/-- A dense `int32` feature `b` on a schema whose `b` is a string: the failed
call leaves column `1` typed dense but without a decoder, and no skipped
data. -/
theorem initializeSchema_error_state_mismatch :
    ∃ st₁, initializeSchema ⟨.record "r" [("x", .int), ("b", .string)], rfl⟩
        (FDSDecoder.new [⟨.dense, "b", .int32, [], 0, 0, 0, by decide⟩] [] []) = .error (.schemaMismatch "b") st₁ ∧
      st₁.decoderTypes = [.opaqueContextual, .dense] ∧ st₁.decoders = [none, none] ∧ st₁.skippedData = [] := by
  obtain ⟨st₁, h⟩ : ∃ st₁, initializeSchema ⟨.record "r" [("x", .int), ("b", .string)], rfl⟩
      (FDSDecoder.new [⟨.dense, "b", .int32, [], 0, 0, 0, by decide⟩] [] []) = .error (.schemaMismatch "b") st₁ := by
    exact ⟨_, rfl⟩
  refine ⟨st₁, h, ?_⟩
  rcases initializeSchema_error_state h with ⟨hr, -⟩ | ⟨-, pre, m, post, hd, -, -, rfl⟩
  · exact absurd rfl hr
  · rcases pre with _ | ⟨a, pre⟩
    · cases hd
      exact ⟨rfl, rfl, rfl⟩
    · simp [FDSDecoder.declared, FDSDecoder.new] at hd

/-- The states a decoder reaches from its constructor by calls of `Initialize`,
each with its own schema; the flag records whether every call returned OK. -/
inductive Reachable (dense sparse varlen : List Metadata) : Bool → FDSDecoder → Prop
  | new : Reachable dense sparse varlen true (FDSDecoder.new dense sparse varlen)
  | ok {b : Bool} {st st' : FDSDecoder} (schema : ValidSchema) :
      Reachable dense sparse varlen b st → initializeSchema schema st = .ok () st' →
        Reachable dense sparse varlen b st'
  | error {b : Bool} {st st' : FDSDecoder} {e : Status} (schema : ValidSchema) :
      Reachable dense sparse varlen b st → initializeSchema schema st = .error e st' →
        Reachable dense sparse varlen false st'

/-- Every column without a decoder is still of type `opaque_contextual`, so the
opaque loop of the next `Initialize` gives it one. -/
def Sound (st : FDSDecoder) : Prop :=
  ∀ p : Nat, st.decoders[p]?.getD none = none → st.decoderTypes[p]?.getD .opaqueContextual = .opaqueContextual

theorem sound_new (dense sparse varlen : List Metadata) : Sound (FDSDecoder.new dense sparse varlen) :=
  fun _ _ => rfl

theorem getElem?_initialized_of_sound {schema : ValidSchema} {st : FDSDecoder} (hs : Sound st)
    {p : Nat} (hp : p < schema.root.leaves) :
    ∃ d, (initialized schema st).decoders[p]? = some (some d) := by
  cases hclaim : claimant schema.root st.declared p with
  | some m => exact ⟨_, (getElem?_initialized_of_claimant hp hclaim).1⟩
  | none =>
    rcases getElem?_initialized_of_unclaimed hp hclaim with ⟨-, j, hj⟩ | ⟨ht, hd⟩
    · exact ⟨_, hj⟩
    · cases hold : st.decoders[p]?.getD none with
      | none => exact absurd (hs p hold) ht
      | some d => exact ⟨d, by rw [hd, hold]⟩

theorem sound_initialized {schema : ValidSchema} {st : FDSDecoder} (hs : Sound st) :
    Sound (initialized schema st) := by
  intro p hp
  obtain ⟨-, hl₂, -⟩ := length_initialized schema st
  by_cases hlt : p < schema.root.leaves
  · obtain ⟨d, hd⟩ := getElem?_initialized_of_sound hs hlt
    rw [hd] at hp
    cases hp
  · rw [List.getElem?_eq_none (by omega)]
    rfl

theorem Reachable.sound {dense sparse varlen : List Metadata} {b : Bool} {st : FDSDecoder}
    (h : Reachable dense sparse varlen b st) (hb : b = true) : Sound st := by
  induction h with
  | new => exact sound_new _ _ _
  | ok schema _ hinit ih =>
    obtain ⟨-, -, rfl⟩ := initializeSchema_eq_ok.mp hinit
    exact sound_initialized (ih hb)
  | error => cases hb

theorem plan_total_of_sound {st st' : FDSDecoder} {schema : ValidSchema} (hs : Sound st)
    (h : initializeSchema schema st = .ok () st') :
    st'.decoders.length = schema.root.leaves ∧ st'.featureNames.length = schema.root.leaves ∧
      none ∉ st'.decoders := by
  obtain ⟨-, -, rfl⟩ := initializeSchema_eq_ok.mp h
  obtain ⟨hl₁, -, hl₃⟩ := length_initialized schema st
  refine ⟨hl₃, hl₁, fun hmem => ?_⟩
  obtain ⟨p, hp⟩ := List.mem_iff_getElem?.mp hmem
  obtain ⟨d, hd⟩ := getElem?_initialized_of_sound hs (hl₃ ▸ (List.getElem?_eq_some_iff.mp hp).1)
  cases hp.symm.trans hd

/-- Whatever schemas a decoder was initialized with before, as long as every
call returned OK, an `Initialize` that returns OK leaves one decoder and one
feature name per field of its schema and no null decoder, so the loop of
`DecodeFDSDatum` never meets one. -/
theorem initializeSchema_total_of_reachable {dense sparse varlen : List Metadata} {st st' : FDSDecoder}
    {schema : ValidSchema} (hr : Reachable dense sparse varlen true st) (h : initializeSchema schema st = .ok () st') :
    st'.decoders.length = schema.root.leaves ∧ st'.featureNames.length = schema.root.leaves ∧
      none ∉ st'.decoders :=
  plan_total_of_sound (hr.sound rfl) h

/-- Two successful calls with different schemas: the second plan has a decoder
at both columns. -/
theorem initializeSchema_total_second_schema :
    let m : Metadata := ⟨.dense, "b", .int32, [], 0, 0, 0, by decide⟩
    let schema₁ : ValidSchema := ⟨.record "r" [("b", .int), ("x", .long)], rfl⟩
    let schema₂ : ValidSchema := ⟨.record "r" [("y", .string), ("b", .int)], rfl⟩
    ∃ st₁ st₂, initializeSchema schema₁ (FDSDecoder.new [m] [] []) = .ok () st₁ ∧
      initializeSchema schema₂ st₁ = .ok () st₂ ∧ none ∉ st₂.decoders := by
  dsimp only
  obtain ⟨st₁, h₁⟩ : ∃ st₁, initializeSchema ⟨.record "r" [("b", .int), ("x", .long)], rfl⟩
      (FDSDecoder.new [⟨.dense, "b", .int32, [], 0, 0, 0, by decide⟩] [] []) = .ok () st₁ := by exact ⟨_, rfl⟩
  obtain ⟨st₂, h₂⟩ : ∃ st₂, initializeSchema ⟨.record "r" [("y", .string), ("b", .int)], rfl⟩ st₁ = .ok () st₂ := by
    cases h₁; exact ⟨_, rfl⟩
  exact ⟨st₁, st₂, h₁, h₂, (initializeSchema_total_of_reachable (.ok _ .new h₁) h₂).2.2⟩

/-- After a successful `Initialize` on a fresh decoder, `decoders_` and
`feature_names_` have one entry per column and no decoder is null, so the loop
of `DecodeFDSDatum` never dereferences an empty entry. -/
theorem initializeSchema_plan_total {dense sparse varlen : List Metadata} {schema : ValidSchema} {st : FDSDecoder}
    (h : initializeSchema schema (FDSDecoder.new dense sparse varlen) = .ok () st) :
    st.decoders.length = schema.root.leaves ∧ st.featureNames.length = schema.root.leaves ∧ none ∉ st.decoders :=
  plan_total_of_sound (Reachable.new.sound rfl) h

/-- A record with a declared and an unused column. -/
theorem initializeSchema_plan_total_mixed :
    let m : Metadata := ⟨.dense, "a", .int32, [], 0, 0, 0, by decide⟩
    ∃ st, initializeSchema ⟨.record "r" [("a", .int), ("b", .long)], rfl⟩ (FDSDecoder.new [m] [] []) = .ok () st ∧
      st.decoders.length = 2 ∧ st.featureNames.length = 2 ∧ none ∉ st.decoders := by
  intro m
  obtain ⟨st, h⟩ : ∃ st, initializeSchema ⟨.record "r" [("a", .int), ("b", .long)], rfl⟩
      (FDSDecoder.new [m] [] []) = .ok () st := ⟨_, rfl⟩
  exact ⟨st, h, initializeSchema_plan_total h⟩

/-- Every opaque decoder stands at a column of type `opaque_contextual`. -/
def OpaqueTyped (st : FDSDecoder) : Prop :=
  ∀ p j : Nat, st.decoders[p]? = some (some (.opaqueContextual j)) → st.decoderTypes[p]? = some .opaqueContextual

theorem opaqueColumns_zero (types : List FeatureType) (n : Nat) :
    opaqueColumns types 0 n = (List.range n).filter fun q => types[q]? = some .opaqueContextual := by
  rw [opaqueColumns, List.range_eq_range']

theorem opaqueTyped_new (dense sparse varlen : List Metadata) : OpaqueTyped (FDSDecoder.new dense sparse varlen) :=
  fun _ _ h => by simp at h

theorem opaqueTyped_foldl_declare {root : Node} {st : FDSDecoder} (hs : OpaqueTyped st) (ms : List Metadata)
    (n : Nat) : OpaqueTyped (ms.foldl (declare root) (st.resizeColumns n)) := by
  intro p j hd
  rw [getElem?_decoders_foldl] at hd
  rw [getElem?_decoderTypes_foldl]
  simp only [FDSDecoder.resizeColumns, getElem?_resize] at hd ⊢
  split at hd
  · rename_i hp
    rw [if_pos hp]
    cases hcl : claimant root ms p with
    | some m =>
      rw [hcl] at hd
      exact absurd (Option.some.inj (Option.some.inj hd)) (planEntry_ne_opaqueContextual _ _ _)
    | none =>
      rw [hcl] at hd
      have hold : st.decoders[p]? = some (some (.opaqueContextual j)) := by
        cases h' : st.decoders[p]? <;> simp_all
      simp [hs p j hold]
  · cases hd

theorem getElem?_decoders_initialized_of_opaqueTyped {schema : ValidSchema} {st : FDSDecoder} (hs : OpaqueTyped st)
    (p j : Nat) :
    (initialized schema st).decoders[p]? = some (some (.opaqueContextual j)) ↔
      (opaqueColumns (initialized schema st).decoderTypes 0 schema.root.leaves)[j]? = some p := by
  have hinit : (initialized schema st).decoders[p]? = (installOpaque schema.root schema.root.leaves 0 0
      (st.declared.foldl (declare schema.root) (st.resizeColumns schema.root.leaves))).decoders[p]? := rfl
  have hlen : (st.declared.foldl (declare schema.root) (st.resizeColumns schema.root.leaves)).decoders.length =
      schema.root.leaves :=
    (length_foldl_declare schema.root st.declared (st.resizeColumns schema.root.leaves)).2.2.trans
      (length_resize _ _ _)
  rw [hinit, decoderTypes_initialized, getElem?_decoders_installOpaque, opaqueColumns_zero, opaqueColumns_zero,
    getElem?_filter_range_eq_some]
  split
  · rename_i hc
    obtain ⟨-, hp, ht⟩ := hc
    rw [Nat.zero_add] at hp
    rw [List.getElem?_eq_getElem (by rw [hlen]; exact hp)]
    simp [hp, ht]
  · rename_i hc
    refine ⟨fun hd => (hc ⟨Nat.zero_le _, ?_, opaqueTyped_foldl_declare hs _ _ p j hd⟩).elim,
      fun ⟨hp, ht, _⟩ => (hc ⟨Nat.zero_le _, by omega, of_decide_eq_true ht⟩).elim⟩
    have hp := (List.getElem?_eq_some_iff.mp hd).1
    omega

theorem opaqueTyped_initialized {schema : ValidSchema} {st : FDSDecoder} (hs : OpaqueTyped st) :
    OpaqueTyped (initialized schema st) := fun p j hd => by
  have hmem := (getElem?_decoders_initialized_of_opaqueTyped hs p j).mp hd
  rw [opaqueColumns_zero, getElem?_filter_range_eq_some] at hmem
  exact of_decide_eq_true hmem.2.1

theorem skippedData_initialized (schema : ValidSchema) (st : FDSDecoder) :
    (initialized schema st).skippedData = st.skippedData ++
      (opaqueColumns (initialized schema st).decoderTypes 0 schema.root.leaves).map
        fun q => GenericDatum.ofNode (schema.root.leafAt q) := by
  show (installOpaque _ _ _ _ _).skippedData = _
  rw [skippedData_installOpaque, skippedData_foldl, decoderTypes_initialized]
  rfl

theorem Reachable.opaqueTyped {dense sparse varlen : List Metadata} {b : Bool} {st : FDSDecoder}
    (h : Reachable dense sparse varlen b st) (hb : b = true) : OpaqueTyped st := by
  induction h with
  | new => exact opaqueTyped_new _ _ _
  | ok schema _ hinit ih =>
    obtain ⟨-, -, rfl⟩ := initializeSchema_eq_ok.mp hinit
    exact opaqueTyped_initialized (ih hb)
  | error => cases hb

/-- Along every run of `Initialize` calls that all returned OK, each call puts
the opaque decoder of datum index `j` at the `j`-th column of type
`opaque_contextual`, counting from `0`, and appends one skipped datum per such
column to the skipped data the earlier calls left, which it never clears. From
the second call on, the opaque decoders therefore index the data the first
call built from the first schema's nodes. -/
theorem initializeSchema_opaque_of_reachable {dense sparse varlen : List Metadata} {st st' : FDSDecoder}
    {schema : ValidSchema} (hr : Reachable dense sparse varlen true st) (h : initializeSchema schema st = .ok () st')
    (p j : Nat) :
    (st'.decoders[p]? = some (some (.opaqueContextual j)) ↔
        (opaqueColumns st'.decoderTypes 0 schema.root.leaves)[j]? = some p) ∧
      st'.skippedData = st.skippedData ++
        (opaqueColumns st'.decoderTypes 0 schema.root.leaves).map fun q => GenericDatum.ofNode (schema.root.leafAt q) := by
  obtain ⟨-, -, rfl⟩ := initializeSchema_eq_ok.mp h
  exact ⟨getElem?_decoders_initialized_of_opaqueTyped (hr.opaqueTyped rfl) p j, skippedData_initialized schema st⟩

/-- A first schema whose unused column `x` is a long, then a second whose `x`
is a string: the second plan's opaque decoder at column `0` addresses slot `0`
of the skipped data, the long datum the first call built, while the string
datum the second call built sits in slot `1`. -/
theorem initializeSchema_opaque_second_schema :
    ∃ st₁ st₂, initializeSchema ⟨.record "r" [("x", .long), ("a", .int)], rfl⟩
        (FDSDecoder.new [⟨.dense, "a", .int32, [], 0, 0, 0, by decide⟩] [] []) = .ok () st₁ ∧
      initializeSchema ⟨.record "r" [("x", .string), ("a", .int)], rfl⟩ st₁ = .ok () st₂ ∧
      st₂.decoders[0]? = some (some (.opaqueContextual 0)) ∧
      st₂.skippedData = [GenericDatum.ofNode .long, GenericDatum.ofNode .string] := by
  obtain ⟨st₁, h₁⟩ : ∃ st₁, initializeSchema ⟨.record "r" [("x", .long), ("a", .int)], rfl⟩
      (FDSDecoder.new [⟨.dense, "a", .int32, [], 0, 0, 0, by decide⟩] [] []) = .ok () st₁ := by exact ⟨_, rfl⟩
  obtain ⟨st₂, h₂⟩ : ∃ st₂, initializeSchema ⟨.record "r" [("x", .string), ("a", .int)], rfl⟩ st₁ = .ok () st₂ := by
    cases h₁; exact ⟨_, rfl⟩
  obtain ⟨hdec, hsk⟩ := initializeSchema_opaque_of_reachable (.ok _ .new h₁) h₂ 0 0
  refine ⟨st₁, st₂, h₁, h₂, hdec.mpr ?_, hsk.trans ?_⟩
  all_goals obtain ⟨-, -, rfl⟩ := initializeSchema_eq_ok.mp h₁
  all_goals obtain ⟨-, -, rfl⟩ := initializeSchema_eq_ok.mp h₂
  · decide
  · rfl

theorem claimant_perm {root : Node} (hnd : root.fieldNames.Nodup) {ms ms' : List Metadata} (hperm : ms.Perm ms')
    (hnames : (ms.map (·.name)).Nodup) (p : Nat) : claimant root ms' p = claimant root ms p := by
  have hlen : (ms.filter fun m => root.nameIndex m.name = some p).length ≤ 1 := by
    rw [← List.length_map _ (·.name)]
    obtain ⟨f, hf⟩ : ∃ f, ∀ m ∈ ms.filter (fun m => root.nameIndex m.name = some p), m.name = f :=
      ⟨(root.fieldNames[p]?).getD "", fun m hm => by
        have := (Node.nameIndex_eq_some_iff hnd).mp (of_decide_eq_true (List.mem_filter.mp hm).2)
        rw [this]; rfl⟩
    have hsub : (ms.filter fun m => root.nameIndex m.name = some p).map (·.name) ⊆ [f] := fun x hx => by
      obtain ⟨m, hm, rfl⟩ := List.mem_map.mp hx
      exact List.mem_singleton.mpr (hf m hm)
    exact (List.Nodup.subperm (hnames.sublist ((List.filter_sublist ms).map _)) hsub).length_le
  have hP := hperm.filter fun m => root.nameIndex m.name = some p
  unfold claimant
  generalize ms.filter (fun m => root.nameIndex m.name = some p) = l at hP hlen ⊢
  rcases l with _ | ⟨a, _ | ⟨b, t⟩⟩
  · rw [← hP.nil_eq]
  · rw [List.perm_singleton.mp hP.symm]
  · simp at hlen

theorem installOpaque_congr (root : Node) (k : Nat) {st₁ st₂ : FDSDecoder} (hD : st₁.decoders = st₂.decoders)
    (hT : st₁.decoderTypes = st₂.decoderTypes) (hN : st₁.featureNames = st₂.featureNames)
    (hS : st₁.skippedData = st₂.skippedData) :
    (installOpaque root k 0 0 st₁).decoders = (installOpaque root k 0 0 st₂).decoders ∧
      (installOpaque root k 0 0 st₁).decoderTypes = (installOpaque root k 0 0 st₂).decoderTypes ∧
      (installOpaque root k 0 0 st₁).featureNames = (installOpaque root k 0 0 st₂).featureNames ∧
      (installOpaque root k 0 0 st₁).skippedData = (installOpaque root k 0 0 st₂).skippedData := by
  refine ⟨List.ext_getElem? fun p => ?_, ?_, List.ext_getElem? fun p => ?_, ?_⟩
  · rw [getElem?_decoders_installOpaque, getElem?_decoders_installOpaque, hD, hT]
  · rw [decoderTypes_installOpaque, decoderTypes_installOpaque, hT]
  · rw [getElem?_featureNames_installOpaque, getElem?_featureNames_installOpaque, hN, hT]
  · rw [skippedData_installOpaque, skippedData_installOpaque, hS, hT]

/-- With declared features of distinct names, `Initialize` on a fresh decoder
accepts a schema whatever the order of the features within the dense, the
sparse and the varlen list, and builds the same plan: the same decoders,
decoder types, feature names and skipped data. -/
theorem initializeSchema_perm {schema : ValidSchema} {dense sparse varlen dense' sparse' varlen' : List Metadata}
    (hd : dense.Perm dense') (hs : sparse.Perm sparse') (hv : varlen.Perm varlen')
    (hnames : ((dense ++ sparse ++ varlen).map (·.name)).Nodup) {st : FDSDecoder}
    (h : initializeSchema schema (FDSDecoder.new dense sparse varlen) = .ok () st) :
    ∃ st', initializeSchema schema (FDSDecoder.new dense' sparse' varlen') = .ok () st' ∧
      st'.decoders = st.decoders ∧ st'.decoderTypes = st.decoderTypes ∧ st'.featureNames = st.featureNames ∧
      st'.skippedData = st.skippedData := by
  have hperm : (dense ++ sparse ++ varlen).Perm (dense' ++ sparse' ++ varlen') := (hd.append hs).append hv
  obtain ⟨hrec, hall, rfl⟩ := initializeSchema_eq_ok.mp h
  refine ⟨_, initializeSchema_eq_ok.mpr ⟨hrec, fun m hm => hall m (hperm.mem_iff.mpr hm), rfl⟩, ?_⟩
  have hclaim : ∀ p, claimant schema.root (FDSDecoder.new dense' sparse' varlen').declared p =
      claimant schema.root (FDSDecoder.new dense sparse varlen).declared p :=
    claimant_perm schema.fieldNames_nodup hperm hnames
  exact installOpaque_congr schema.root schema.root.leaves
    (List.ext_getElem? fun p => by rw [getElem?_decoders_foldl, getElem?_decoders_foldl, hclaim]; rfl)
    (List.ext_getElem? fun p => by rw [getElem?_decoderTypes_foldl, getElem?_decoderTypes_foldl, hclaim]; rfl)
    (List.ext_getElem? fun p => by rw [getElem?_featureNames_foldl, getElem?_featureNames_foldl, hclaim]; rfl)
    (by rw [skippedData_foldl, skippedData_foldl]; rfl)

/-- Two dense features declared in either order, beside a varlen one, give the
same decoders. -/
theorem initializeSchema_perm_swap :
    let ma : Metadata := ⟨.dense, "a", .int32, [], 0, 0, 0, by decide⟩
    let mb : Metadata := ⟨.dense, "b", .int64, [], 1, 0, 0, by decide⟩
    let mc : Metadata := ⟨.varlen, "c", .int64, [-1], 0, 0, 0, by decide⟩
    let schema : ValidSchema := ⟨.record "r" [("a", .int), ("b", .long), ("c", .array .long)], rfl⟩
    ∃ st st', initializeSchema schema (FDSDecoder.new [ma, mb] [] [mc]) = .ok () st ∧
      initializeSchema schema (FDSDecoder.new [mb, ma] [] [mc]) = .ok () st' ∧ st'.decoders = st.decoders := by
  intro ma mb mc schema
  obtain ⟨st, h⟩ : ∃ st, initializeSchema schema (FDSDecoder.new [ma, mb] [] [mc]) = .ok () st := ⟨_, rfl⟩
  obtain ⟨st', h', hd, -⟩ := @initializeSchema_perm schema [ma, mb] [] [mc] [mb, ma] [] [mc]
    (List.Perm.swap mb ma []) (List.Perm.refl _) (List.Perm.refl _) (by decide) st h
  exact ⟨st, st', h, h', hd⟩

end AvroFds.Fds
