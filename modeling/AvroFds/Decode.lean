import AvroFds.Plan
import AvroFds.Generic

/-!
`FDSDecoder::DecodeFDSDatum` (fds_decoder.h): one record read through the
plan, with the `NullableFeatureDecoder` that guards a union column and the
`opaque_contextual::FeatureDecoder` that reads an unused column into the
skipped data.
-/

namespace AvroFds.Fds

open Schema Wire Buffer Generic

section Decode

variable (runColumn : Node → Metadata → Nat → DecodeM Status)

/-- `avro::decode(*decoder, skipped_data[datum_index_])`: the datum is read by
its own schema node; an index past the skipped data is undefined. -/
def decodeSkipped (datumIndex : Nat) : DecodeM Status := do
  match (← get).skippedData[datumIndex]? with
  | none => throw .undefinedBehaviour
  | some g =>
    let v ← read (decodeDatum g.node)
    modify fun s => { s with skippedData := s.skippedData.set datumIndex ⟨g.node, v⟩ }
    pure .ok

/-- `operator()` of a plan entry. -/
def FeatureDecoder.decode : FeatureDecoder → Nat → DecodeM Status
  | .column node m, offset => runColumn node m offset
  | .nullable decoder nonNullIndex, offset => do
    let index ← read decodeUnionIndex
    if index ≠ nonNullIndex then pure .nullValue
    else decoder.decode offset
  | .opaqueContextual datumIndex, _ => decodeSkipped datumIndex

/-- The loop of `DecodeFDSDatum` over `decoders_` and `feature_names_`; a null
decoder is undefined. -/
def decodeColumns (offset : Nat) : List (Option FeatureDecoder) → List String → DecodeM Status
  | [], _ => pure .ok
  | none :: _, _ => throw .undefinedBehaviour
  | some d :: ds, names => do
    let status ← d.decode runColumn offset
    if status = .ok then decodeColumns offset ds names.tail
    else
      match names.head? with
      | some name => pure (.featureDecode name status)
      | none => throw .undefinedBehaviour

/-- `DecodeFDSDatum(decoder, dense_tensors, buffer, skipped_data, offset)`. -/
def decodeFDSDatum (st : FDSDecoder) (offset : Nat) : DecodeM Status :=
  decodeColumns runColumn offset st.decoders st.featureNames

/-- Modelled from the spec: the batching driver, which is not in the repository,
calls `DecodeFDSDatum` once per record of a batch of `n` records, with row
offsets `offset`, `offset + 1`, …, on one stream, and abandons the batch at the
first record that does not return OK. -/
def decodeBatch (st : FDSDecoder) : Nat → Nat → DecodeM Status
  | _, 0 => pure .ok
  | offset, n + 1 => do
    let status ← decodeFDSDatum runColumn st offset
    if status = .ok then decodeBatch st (offset + 1) n else pure status

theorem decodeColumns_cons_ok {offset : Nat} {d : FeatureDecoder} {ds : List (Option FeatureDecoder)}
    {names : List String} {s s₁ : Machine} (h : d.decode runColumn offset s = .ok .ok s₁) :
    decodeColumns runColumn offset (some d :: ds) names s = decodeColumns runColumn offset ds names.tail s₁ := by
  rw [decodeColumns, bind_ok h, if_pos rfl]

theorem decodeColumns_cons_status {offset : Nat} {d : FeatureDecoder} {ds : List (Option FeatureDecoder)}
    {name : String} {names : List String} {s s₁ : Machine} {status : Status}
    (h : d.decode runColumn offset s = .ok status s₁) (hs : status ≠ .ok) :
    decodeColumns runColumn offset (some d :: ds) (name :: names) s = .ok (.featureDecode name status) s₁ := by
  rw [decodeColumns, bind_ok h, if_neg hs]
  rfl

theorem decodeColumns_cons_error {offset : Nat} {d : FeatureDecoder} {ds : List (Option FeatureDecoder)}
    {names : List String} {s s₁ : Machine} {e : Exception} (h : d.decode runColumn offset s = .error e s₁) :
    decodeColumns runColumn offset (some d :: ds) names s = .error e s₁ := by
  rw [decodeColumns, bind_error h]

theorem decode_nullable (decoder : FeatureDecoder) (nonNullIndex offset : Nat) (s : Machine) (x : Int)
    (rest : List Token) (hin : s.input = .long x :: rest) :
    (FeatureDecoder.nullable decoder nonNullIndex).decode runColumn offset s =
      if toSizeT x = nonNullIndex then decoder.decode runColumn offset { s with input := rest }
      else .ok .nullValue { s with input := rest } := by
  have hread : read decodeUnionIndex s = .ok (toSizeT x) { s with input := rest } :=
    read_ok (by rw [hin]; exact run_map_ok (decodeLong_run x rest))
  rw [FeatureDecoder.decode, bind_ok hread]
  by_cases hx : toSizeT x = nonNullIndex
  · rw [if_neg (not_not.mpr hx), if_pos hx]
  · rw [if_pos hx, if_neg hx]; rfl

theorem decode_nullable_error (decoder : FeatureDecoder) (nonNullIndex offset : Nat) (s : Machine)
    (hin : ∀ x rest, s.input ≠ .long x :: rest) :
    ∃ e, (FeatureDecoder.nullable decoder nonNullIndex).decode runColumn offset s = .error e s := by
  have hread : ∃ e, decodeUnionIndex.run s.input = .error e := by
    match h : s.input with
    | [] => exact ⟨.eof, rfl⟩
    | .long x :: rest => exact absurd h (hin x rest)
    | .float _ :: _ | .double _ :: _ | .bool _ :: _ | .bytes _ :: _ | .cut _ _ :: _ => exact ⟨.badToken, rfl⟩
  obtain ⟨e, he⟩ := hread
  exact ⟨e, by rw [FeatureDecoder.decode, bind_error (read_error he)]⟩

theorem decodeSkipped_eq_ok {datumIndex : Nat} {s s' : Machine} {status : Status}
    (h : decodeSkipped datumIndex s = .ok status s') :
    ∃ g v, s.skippedData[datumIndex]? = some g ∧ (decodeDatum g.node).run s.input = .ok (v, s'.input) ∧
      g.node.conforms v = true ∧ status = .ok ∧
      s' = { s with input := s'.input, skippedData := s.skippedData.set datumIndex ⟨g.node, v⟩ } := by
  unfold decodeSkipped at h
  rw [bind_ok (get_run _)] at h
  cases hg : s.skippedData[datumIndex]? with
  | none => rw [hg] at h; cases h
  | some g =>
    rw [hg] at h
    obtain ⟨v, s₁, hv, h⟩ := bind_eq_ok h
    obtain ⟨hrun, hs₁⟩ := read_eq_ok hv
    rw [hs₁, bind_ok (modify_run _ _)] at h
    cases h
    exact ⟨g, v, rfl, hrun, decodeDatum_conforms g.node _ _ _ hrun, rfl, rfl⟩

theorem decodeSkipped_run {datumIndex : Nat} {s : Machine} {g : GenericDatum} {d : Datum}
    (hg : s.skippedData[datumIndex]? = some g) (hd : g.node.conforms d = true) (rest : List Token)
    (hin : s.input = encode d ++ rest) :
    decodeSkipped datumIndex s =
      .ok .ok { s with input := rest, skippedData := s.skippedData.set datumIndex ⟨g.node, d⟩ } := by
  unfold decodeSkipped
  rw [bind_ok (get_run _), hg]
  dsimp only
  rw [bind_ok (read_ok (by rw [hin]; exact decodeDatum_encode g.node d hd rest)), bind_ok (modify_run _ _)]
  rfl

theorem map_node_set {l : List GenericDatum} {j : Nat} {g : GenericDatum} (hg : l[j]? = some g) (v : Datum) :
    (l.set j ⟨g.node, v⟩).map (·.node) = l.map (·.node) :=
  List.ext_getElem? fun i => by
    have hj := (List.getElem?_eq_some_iff.mp hg).1
    rw [List.getElem?_map, List.getElem?_map, List.getElem?_set]
    split <;> simp_all

/-- The decoders `CreateFeatureDecoder` builds leave the skipped data alone. -/
def KeepsSkipped : Prop :=
  ∀ node m offset s, (leftState (runColumn node m offset s)).skippedData = s.skippedData

theorem decodeSkipped_nodes (datumIndex : Nat) (s : Machine) :
    (leftState (decodeSkipped datumIndex s)).skippedData.map (·.node) = s.skippedData.map (·.node) := by
  unfold decodeSkipped
  rw [bind_ok (get_run _)]
  cases hg : s.skippedData[datumIndex]? with
  | none => rfl
  | some g =>
    dsimp only
    cases hr : read (decodeDatum g.node) s with
    | error e s₁ =>
      have hs₁ : s₁.skippedData = s.skippedData := skippedData_read hr
      rw [bind_error hr]; exact congrArg _ hs₁
    | ok v s₁ =>
      have hs₁ : s₁.skippedData = s.skippedData := skippedData_read hr
      rw [bind_ok hr, bind_ok (modify_run _ _)]
      show (s₁.skippedData.set datumIndex ⟨g.node, v⟩).map (·.node) = _
      rw [hs₁, map_node_set hg]

variable {runColumn}

theorem decode_skipped_nodes (hkeep : KeepsSkipped runColumn) (d : FeatureDecoder) (offset : Nat) (s : Machine) :
    (leftState (d.decode runColumn offset s)).skippedData.map (·.node) = s.skippedData.map (·.node) := by
  induction d generalizing s with
  | column node m => rw [FeatureDecoder.decode, hkeep]
  | nullable d k ih =>
    rw [FeatureDecoder.decode]
    cases hr : read decodeUnionIndex s with
    | error e s₁ =>
      have hs₁ : s₁.skippedData = s.skippedData := skippedData_read hr
      rw [bind_error hr]; exact congrArg _ hs₁
    | ok x s₁ =>
      have hs₁ : s₁.skippedData = s.skippedData := skippedData_read hr
      rw [bind_ok hr]
      split
      · exact congrArg _ hs₁
      · rw [ih, hs₁]
  | opaqueContextual j => exact decodeSkipped_nodes j s

theorem decodeColumns_skipped_nodes (hkeep : KeepsSkipped runColumn) (offset : Nat) :
    ∀ (ds : List (Option FeatureDecoder)) (names : List String) (s : Machine),
      (leftState (decodeColumns runColumn offset ds names s)).skippedData.map (·.node) =
        s.skippedData.map (·.node)
  | [], _, _ => rfl
  | none :: _, _, _ => rfl
  | some d :: ds, names, s => by
    have hd := decode_skipped_nodes hkeep d offset s
    cases hA : d.decode runColumn offset s with
    | error e s₁ => rw [decodeColumns_cons_error runColumn hA]; rw [hA] at hd; exact hd
    | ok status s₁ =>
      rw [hA] at hd
      by_cases hst : status = .ok
      · subst hst
        rw [decodeColumns_cons_ok runColumn hA, decodeColumns_skipped_nodes hkeep offset ds _ s₁]
        exact hd
      · rw [decodeColumns, bind_ok hA, if_neg hst]
        cases names.head? <;> exact hd

theorem decodeBatch_skipped_nodes (hkeep : KeepsSkipped runColumn) (st : FDSDecoder) :
    ∀ (offset n : Nat) (s : Machine),
      (leftState (decodeBatch runColumn st offset n s)).skippedData.map (·.node) = s.skippedData.map (·.node)
  | _, 0, _ => rfl
  | offset, n + 1, s => by
    have hd : (leftState (decodeFDSDatum runColumn st offset s)).skippedData.map (·.node) =
        s.skippedData.map (·.node) := decodeColumns_skipped_nodes hkeep offset _ _ s
    rw [decodeBatch]
    cases hA : decodeFDSDatum runColumn st offset s with
    | error e s₁ => rw [bind_error hA]; rw [hA] at hd; exact hd
    | ok status s₁ =>
      rw [hA] at hd
      rw [bind_ok hA]
      split
      · rw [decodeBatch_skipped_nodes hkeep st (offset + 1) n s₁]; exact hd
      · exact hd

/-- On a fresh plan, the skipped-data sink comes back from a batch, whatever its
records hold and wherever the batch stops, with the nodes `GetSkippedData()`
gave it: the slot of the opaque decoder at column `p` still holds a datum of
that column's node. -/
theorem decodeBatch_keeps_skipped (hkeep : KeepsSkipped runColumn) {dense sparse varlen : List Metadata}
    {schema : ValidSchema} {st : FDSDecoder}
    (h : initializeSchema schema (FDSDecoder.new dense sparse varlen) = .ok () st)
    (offset n : Nat) (s : Machine) (hK : s.skippedData.map (·.node) = st.skippedData.map (·.node)) :
    (leftState (decodeBatch runColumn st offset n s)).skippedData.map (·.node) = st.skippedData.map (·.node) ∧
      ∀ p j : Nat, st.decoders[p]? = some (some (.opaqueContextual j)) →
        ∃ v, (leftState (decodeBatch runColumn st offset n s)).skippedData[j]? = some ⟨schema.root.leafAt p, v⟩ := by
  have hnodes := (decodeBatch_skipped_nodes hkeep st offset n s).trans hK
  refine ⟨hnodes, fun p j hpj => ?_⟩
  have hj := congrArg (·[j]?) hnodes
  simp only [List.getElem?_map, getElem?_skippedData_fresh h hpj, Option.map_some'] at hj
  obtain ⟨g, hg, hgn⟩ := Option.map_eq_some'.mp hj
  exact ⟨g.value, hg.trans (congrArg (fun n => some (GenericDatum.mk n g.value)) hgn)⟩

/-- A batch of two records over a declared column between two unused ones:
the sink keeps its long and string slots. -/
theorem decodeBatch_keeps_skipped_around :
    let m : Metadata := ⟨.dense, "b", .int32, [], 0, 0, 0, by decide⟩
    let schema : ValidSchema := ⟨.record "r" [("a", .long), ("b", .int), ("c", .string)], rfl⟩
    let s : Machine := ⟨[.long 3, .long 4], [], ⟨[], [], [], [], [], [], [], []⟩,
      [GenericDatum.ofNode .long, GenericDatum.ofNode .string]⟩
    ∃ st, initializeSchema schema (FDSDecoder.new [m] [] []) = .ok () st ∧
      (leftState (decodeBatch (fun _ _ _ => pure .ok) st 0 2 s)).skippedData.map (·.node) = [.long, .string] ∧
      ∃ v, (leftState (decodeBatch (fun _ _ _ => pure .ok) st 0 2 s)).skippedData[1]? = some ⟨.string, v⟩ := by
  dsimp only
  obtain ⟨st, h⟩ : ∃ st, initializeSchema ⟨.record "r" [("a", .long), ("b", .int), ("c", .string)], rfl⟩
      (FDSDecoder.new [⟨.dense, "b", .int32, [], 0, 0, 0, by decide⟩] [] []) = .ok () st := by exact ⟨_, rfl⟩
  obtain ⟨hnodes, hslot⟩ := @decodeBatch_keeps_skipped (fun _ _ _ => pure .ok) (fun _ _ _ _ => rfl) _ _ _ _ _ h 0 2
    ⟨[.long 3, .long 4], [], ⟨[], [], [], [], [], [], [], []⟩, [GenericDatum.ofNode .long, GenericDatum.ofNode .string]⟩
    (by cases h; rfl)
  exact ⟨st, h, hnodes.trans (by cases h; rfl), hslot 2 1 (by cases h; rfl)⟩

variable (runColumn)

/-- On a fresh decoder, `Initialize` gives the `j`-th unused column, in
increasing order, the opaque decoder of datum index `j` and the `j`-th skipped
datum, built from that column's node; while the skipped data keeps those nodes,
each opaque decoder writes only its own slot, with a value of its node. -/
theorem initializeSchema_skipped {dense sparse varlen : List Metadata} {schema : ValidSchema} {st : FDSDecoder}
    (h : initializeSchema schema (FDSDecoder.new dense sparse varlen) = .ok () st) :
    let unused := unusedColumns schema (dense ++ sparse ++ varlen)
    (∀ p j : Nat, st.decoders[p]? = some (some (.opaqueContextual j)) ↔ unused[j]? = some p) ∧
    st.skippedData = unused.map (fun p => GenericDatum.ofNode (schema.root.leafAt p)) ∧
    ∀ p j : Nat, st.decoders[p]? = some (some (.opaqueContextual j)) →
      st.skippedData[j]? = some (GenericDatum.ofNode (schema.root.leafAt p)) ∧
      ∀ offset (s s' : Machine) status, s.skippedData.map (·.node) = st.skippedData.map (·.node) →
        (FeatureDecoder.opaqueContextual j).decode runColumn offset s = .ok status s' →
        ∃ v, (schema.root.leafAt p).conforms v = true ∧ status = .ok ∧
          s' = { s with input := s'.input, skippedData := s.skippedData.set j ⟨schema.root.leafAt p, v⟩ } := by
  intro unused
  refine ⟨getElem?_decoders_fresh h, skippedData_fresh h, fun p j hpj => ?_⟩
  have hj := getElem?_skippedData_fresh h hpj
  refine ⟨hj, fun offset s s' status hnodes hrun => ?_⟩
  obtain ⟨g, v, hg, -, hv, rfl, hs'⟩ := decodeSkipped_eq_ok hrun
  have hnode : g.node = schema.root.leafAt p := by
    have := congrArg (·[j]?) hnodes
    simpa only [List.getElem?_map, hg, hj, Option.map_some', Option.some.injEq] using this
  rw [hnode] at hv hs'
  exact ⟨v, hv, rfl, hs'⟩

/-- A declared column between two unused ones: the long at column `0` and the
string at column `2` are the skipped data, in that order. -/
theorem initializeSchema_skipped_around :
    let m : Metadata := ⟨.dense, "b", .int32, [], 0, 0, 0, by decide⟩
    let schema : ValidSchema := ⟨.record "r" [("a", .long), ("b", .int), ("c", .string)], rfl⟩
    ∃ st, initializeSchema schema (FDSDecoder.new [m] [] []) = .ok () st ∧
      unusedColumns schema [m] = [0, 2] ∧
      st.skippedData = (unusedColumns schema [m]).map fun p => GenericDatum.ofNode (schema.root.leafAt p) := by
  intro m schema
  refine ⟨_, rfl, rfl, ?_⟩
  exact (@initializeSchema_skipped (fun _ _ _ => pure .ok) [m] [] [] schema _ rfl).2.1

/-- A declared feature on a union field: a union of neither one nor two
branches is rejected with `InvalidUnionType`; after a successful `Initialize`
the union has one or two branches, its carrier is not null, and the column's
decoder reads the branch index and gives `NullValueError` off the carrier, the
carrier's decoder on the rest of the stream on it. -/
theorem initializeSchema_union {schema : ValidSchema} {m : Metadata} {p : Nat} {U : Node}
    (hp : schema.root.nameIndex m.name = some p) (hpU : schema.root.leafAt p = U) (hU : U.type = .union) :
    (¬(U.leaves = 1 ∨ U.leaves = 2) →
      ∀ st, ∃ st', initializeFeatureDecoder schema.root m st = .error (.invalidUnionType m.name) st') ∧
    ∀ st st', m ∈ st.declared → initializeSchema schema st = .ok () st' →
      (U.leaves = 1 ∨ U.leaves = 2) ∧ (U.leafAt (carrierIndex U)).type ≠ .null ∧
      ∃ m', m'.name = m.name ∧
        st'.decoders[p]? = some (some (.nullable (.column (U.leafAt (carrierIndex U)) m') (carrierIndex U))) ∧
        ∀ offset (s : Machine),
          (∀ x rest, s.input = .long x :: rest →
            (FeatureDecoder.nullable (.column (U.leafAt (carrierIndex U)) m') (carrierIndex U)).decode
                runColumn offset s =
              if toSizeT x = carrierIndex U then
                (FeatureDecoder.column (U.leafAt (carrierIndex U)) m').decode runColumn offset
                  { s with input := rest }
              else .ok .nullValue { s with input := rest }) ∧
          ((∀ x rest, s.input ≠ .long x :: rest) →
            ∃ e, (FeatureDecoder.nullable (.column (U.leafAt (carrierIndex U)) m') (carrierIndex U)).decode
              runColumn offset s = .error e s) := by
  subst hpU
  constructor
  · intro hl st
    exact initializeFeatureDecoder_eq_error.mpr ⟨by rw [featureStatus_union hp hU, if_neg hl], nofun⟩
  · intro st st' hm h
    obtain ⟨-, hall, rfl⟩ := initializeSchema_eq_ok.mp h
    have hs := hall m hm
    rw [featureStatus_union hp hU] at hs
    by_cases hl : (schema.root.leafAt p).leaves = 1 ∨ (schema.root.leafAt p).leaves = 2
    · rw [if_pos hl] at hs
      obtain ⟨m', hm'⟩ : ∃ m', (st.declared.filter fun m' => m'.name = m.name).getLast? = some m' :=
        Option.isSome_iff_exists.mp
          (List.getLast?_isSome.mpr (List.ne_nil_of_mem (List.mem_filter.mpr ⟨hm, decide_eq_true rfl⟩)))
      have hclaim := (claimant_eq_of_nameIndex schema.fieldNames_nodup hp).trans hm'
      refine ⟨hl, validateSchema_ok_type_ne_null hs, m',
        of_decide_eq_true (List.mem_filter.mp (List.mem_of_getLast?_eq_some hm')).2, ?_,
        fun offset s => ⟨decode_nullable runColumn _ _ offset s, decode_nullable_error runColumn _ _ offset s⟩⟩
      rw [(getElem?_initialized_of_claimant (Node.lt_leaves_of_nameIndex hp) hclaim).1, planEntry, if_pos hU]
    · rw [if_neg hl] at hs
      cases hs

/-- A union column of the right shape to be accepted: `["null", "int"]` read
by a dense `int32` feature, whose carrier is branch `1`. -/
theorem initializeSchema_union_nullable :
    let m : Metadata := ⟨.dense, "a", .int32, [], 0, 0, 0, by decide⟩
    let schema : ValidSchema := ⟨.record "r" [("a", .union [.null, .int])], rfl⟩
    schema.root.nameIndex m.name = some 0 ∧ schema.root.leafAt 0 = .union [.null, .int] ∧
      (Node.union [.null, .int]).type = .union ∧
      ∃ st', initializeSchema schema (FDSDecoder.new [m] [] []) = .ok () st' ∧
        carrierIndex (.union [.null, .int]) = 1 ∧
        ((Node.union [.null, .int]).leafAt (carrierIndex (.union [.null, .int]))).type ≠ .null := by
  intro m schema
  refine ⟨rfl, rfl, rfl, _, rfl, rfl, ?_⟩
  exact ((@initializeSchema_union (fun _ _ _ => pure .ok) schema m 0 _ rfl rfl rfl).2 (FDSDecoder.new [m] [] []) _
    (by simp [FDSDecoder.new, FDSDecoder.declared]) rfl).2.1

/-- A two-branch union with no null branch: `Initialize` accepts
`["int", "string"]` for a dense `int32` feature, with branch `0` as the
carrier. -/
theorem initializeSchema_union_without_null :
    let m : Metadata := ⟨.dense, "a", .int32, [], 0, 0, 0, by decide⟩
    ∃ st, initializeSchema ⟨.record "r" [("a", .union [.int, .string])], rfl⟩ (FDSDecoder.new [m] [] []) = .ok () st ∧
      st.decoders = [some (.nullable (.column .int m) 0)] :=
  ⟨_, rfl, rfl⟩

end Decode

end AvroFds.Fds
