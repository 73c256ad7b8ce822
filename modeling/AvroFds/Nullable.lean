import AvroFds.Projection

/-!
A union field that a declared feature names is read by a
`NullableFeatureDecoder` around the decoder of the union's carrier branch. On
records whose union holds the carrier, the wrapper is invisible: `Initialize`
accepts the schema with the plain carrier in the union's place, and
`DecodeFDSDatum` returns and writes the same on the record holding the
carrier's value directly. The comparison goes through a simulation: two records
whose declared columns are read pairwise alike decode alike.
-/

namespace AvroFds.Fds

open Schema Wire Buffer Generic

theorem zip_set_set : ∀ (l₁ : List α) (l₂ : List β) (p : Nat) (a : α) (b : β),
    (l₁.set p a).zip (l₂.set p b) = (l₁.zip l₂).set p (a, b)
  | [], _, _, _, _ => rfl
  | _ :: _, [], _, _, _ => by simp
  | _ :: _, _ :: _, 0, _, _ => rfl
  | _ :: l₁, _ :: l₂, p + 1, a, b => by simp [zip_set_set l₁ l₂ p a b]

theorem forall₂_filterMap_set {R : β → β → Prop} {f : α → Option β} :
    ∀ {l : List α} {p : Nat} {x x' : α}, l[p]? = some x → (∀ y ∈ l, ∀ b, f y = some b → R b b) →
      Option.Rel R (f x) (f x') → List.Forall₂ R (l.filterMap f) ((l.set p x').filterMap f)
  | [], _, _, _, h, _, _ => by simp at h
  | y :: l, 0, x, x', h, hrefl, hx => by
    obtain rfl : y = x := by simpa using h
    have hl : List.Forall₂ R (l.filterMap f) (l.filterMap f) := List.forall₂_same.mpr fun b hb => by
      obtain ⟨y', hy', hb⟩ := List.mem_filterMap.mp hb
      exact hrefl y' (List.mem_cons_of_mem _ hy') b hb
    rw [List.set_cons_zero]
    generalize hfx : f y = o at hx
    generalize hfx' : f x' = o' at hx
    cases hx with
    | none => rw [List.filterMap_cons_none hfx, List.filterMap_cons_none hfx']; exact hl
    | some hab => rw [List.filterMap_cons_some hfx, List.filterMap_cons_some hfx']; exact .cons hab hl
  | y :: l, p + 1, x, x', h, hrefl, hx => by
    have ih := forall₂_filterMap_set (by simpa using h) (fun y' hy' => hrefl y' (List.mem_cons_of_mem _ hy')) hx
    rw [List.set_cons_succ]
    cases hy : f y with
    | none => rwa [List.filterMap_cons_none hy, List.filterMap_cons_none hy]
    | some b =>
      rw [List.filterMap_cons_some hy, List.filterMap_cons_some hy]
      exact .cons (hrefl y (List.mem_cons_self _ _) b hy) ih

theorem conformsFields_set : ∀ {fields : List (String × Node)} {ds : List Datum} {p : Nat} {f : String × Node}
    {v : Datum}, Node.conforms.conformsFields fields ds = true → p < fields.length → f.2.conforms v = true →
      Node.conforms.conformsFields (fields.set p f) (ds.set p v) = true
  | [], _, _, _, _, _, hp, _ => absurd hp (Nat.not_lt_zero _)
  | _ :: _, [], _, _, _, h, _, _ => by simp [Node.conforms.conformsFields] at h
  | (_, _) :: _, _ :: _, 0, (_, _), _, h, _, hv => by
    simp only [Node.conforms.conformsFields, Bool.and_eq_true, List.set_cons_zero] at h ⊢
    exact ⟨hv, h.2⟩
  | (_, _) :: _, _ :: _, p + 1, _, _, h, hp, hv => by
    simp only [Node.conforms.conformsFields, Bool.and_eq_true, List.set_cons_succ] at h ⊢
    exact ⟨h.1, conformsFields_set h.2 (Nat.lt_of_succ_lt_succ hp) hv⟩

section Alike

variable {runColumn : Node → Metadata → Nat → DecodeM Status} {offset : Nat} {K : List Node}

theorem observe_runColumns_forall₂ {cols cols' : List Column} {rest rest' : List Token}
    (h : List.Forall₂ (Column.Alike runColumn) cols cols') :
    ∀ s t : Machine, s.input = wire cols ++ rest → t.input = wire cols' ++ rest' →
      s.denseTensors = t.denseTensors → s.buffer = t.buffer → s.skippedData.map (·.node) = K →
      observe (runColumns runColumn offset cols s) = observe (runColumns runColumn offset cols' t) := by
  induction h with
  | nil =>
    intro s t _ _ hd hb _
    simp [runColumns, decodeColumns, observe, hd, hb]
  | cons hc _ ih => exact fun s t => observe_runColumns_cons_alike hc ih

theorem Column.alike_self {c : Column} (hr : c.Reads runColumn K) (hs : c.skipped = false) :
    c.Alike runColumn c := by
  obtain ⟨dec, name, v⟩ := c
  match dec, hr, hs with
  | none, hr, _ => exact hr.elim
  | some (.opaqueContextual _), _, hs => cases hs
  | some (.column _ _), hr, _ => exact ⟨rfl, _, _, rfl, rfl, ReadsValue.alike hr⟩
  | some (.nullable _ _), hr, _ => exact ⟨rfl, _, _, rfl, rfl, ReadsValue.alike hr⟩

theorem readsAlike_nullable (hread : ReadsOwnField runColumn) {node : Node} {v : Datum} (m : Metadata) (k : Nat)
    (hval : validateSchema node m = .ok) (hv : node.conforms v = true) :
    ReadsAlike runColumn (.nullable (.column node m) k) (.union k v) (.column node m) v := by
  intro offset s t rest rest' hs ht hd hb
  rw [decode_nullable runColumn _ _ offset s k _ hs, toSizeT_natCast, if_pos rfl]
  have hread' := hread node m v hval hv offset { s with input := encode v ++ rest } t rest rest' rfl ht hd hb
  exact ⟨hread'.1, hread'.2,
    (hread node m v hval hv offset t { s with input := encode v ++ rest } rest' rest ht rfl hd.symm hb.symm).2⟩

end Alike

section Simulation

variable {runColumn : Node → Metadata → Nat → DecodeM Status} {dense sparse varlen : List Metadata}
  {schema schema' : ValidSchema} {st st' : FDSDecoder} {name name' : String} {fields fields' : List (String × Node)}
  {ds ds' : List Datum}

theorem observe_decodeFDSDatum_of_forall₂ (hread : ReadsOwnField runColumn)
    (h : initializeSchema schema (FDSDecoder.new dense sparse varlen) = .ok () st)
    (h' : initializeSchema schema' (FDSDecoder.new dense sparse varlen) = .ok () st')
    (hS : schema.root = .record name fields) (hS' : schema'.root = .record name' fields')
    (hr : Node.conforms.conformsFields fields ds = true) (hr' : Node.conforms.conformsFields fields' ds' = true)
    (halike : List.Forall₂ (Column.Alike runColumn) ((columns st ds).filter (!·.skipped))
      ((columns st' ds').filter (!·.skipped)))
    {offset : Nat} {s t : Machine} {rest rest' : List Token}
    (hs : s.input = encode (.record ds) ++ rest) (ht : t.input = encode (.record ds') ++ rest')
    (hd : s.denseTensors = t.denseTensors) (hb : s.buffer = t.buffer)
    (hK : s.skippedData.map (·.node) = st.skippedData.map (·.node))
    (hK' : t.skippedData.map (·.node) = st'.skippedData.map (·.node)) :
    observe (decodeFDSDatum runColumn st offset s) = observe (decodeFDSDatum runColumn st' offset t) := by
  obtain ⟨hl₁, hl₂⟩ := length_plan_fresh h
  obtain ⟨hl₁', hl₂'⟩ := length_plan_fresh h'
  rw [hS, Node.leaves_record, (conformsFields_getElem hr).1] at hl₁ hl₂
  rw [hS', Node.leaves_record, (conformsFields_getElem hr').1] at hl₁' hl₂'
  rw [decodeFDSDatum_eq_runColumns runColumn hl₁ hl₂, decodeFDSDatum_eq_runColumns runColumn hl₁' hl₂']
  rw [← wire_columns hl₁ hl₂] at hs
  rw [← wire_columns hl₁' hl₂'] at ht
  calc observe (runColumns runColumn offset (columns st ds) s)
      = observe (runColumns runColumn offset ((columns st ds).filter (!·.skipped))
          { s with input := wire ((columns st ds).filter (!·.skipped)) }) :=
        observe_runColumns_declared _ (reads_columns_fresh hread h hS hr) s _ rest [] hs
          (List.append_nil _).symm rfl rfl hK
    _ = observe (runColumns runColumn offset ((columns st' ds').filter (!·.skipped))
          { t with input := wire ((columns st' ds').filter (!·.skipped)) }) :=
        observe_runColumns_forall₂ halike _ _ (List.append_nil _).symm (List.append_nil _).symm hd hb rfl
    _ = observe (runColumns runColumn offset (columns st' ds') t) :=
        (observe_runColumns_declared _ (reads_columns_fresh hread h' hS' hr') t
          { t with input := wire ((columns st' ds').filter (!·.skipped)) } rest' [] ht
          (List.append_nil _).symm rfl rfl hK').symm

end Simulation

section Carrier

variable {runColumn : Node → Metadata → Nat → DecodeM Status} {dense sparse varlen : List Metadata}
  {schema schema' : ValidSchema} {st : FDSDecoder} {name name' field : String} {fields : List (String × Node)}
  {p : Nat} {bs : List Node}

theorem initializeSchema_unwrap (h : initializeSchema schema (FDSDecoder.new dense sparse varlen) = .ok () st)
    (hS : schema.root = .record name fields) (hp : fields[p]? = some (field, .union bs))
    (hT : ((Node.union bs).leafAt (carrierIndex (.union bs))).type ≠ .union)
    (hS' : schema'.root = .record name' (fields.set p (field, (Node.union bs).leafAt (carrierIndex (.union bs))))) :
    initializeSchema schema' (FDSDecoder.new dense sparse varlen) =
      .ok () (initialized schema' (FDSDecoder.new dense sparse varlen)) := by
  obtain ⟨-, hall, -⟩ := initializeSchema_eq_ok.mp h
  refine initializeSchema_eq_ok.mpr ⟨by rw [hS']; rfl, fun m hm => ?_, rfl⟩
  have hm := hall m hm
  obtain ⟨q, hq⟩ := exists_nameIndex_of_featureStatus hm
  have hfn : schema'.root.fieldNames = schema.root.fieldNames := by
    rw [hS, hS']
    refine List.ext_getElem? fun i => ?_
    by_cases hi : p = i
    · subst hi
      obtain ⟨hpl, hpf⟩ := List.getElem?_eq_some_iff.mp hp
      simp [Node.fieldNames, hpl, hpf]
    · simp [Node.fieldNames, hi]
  have hq' : schema'.root.nameIndex m.name = some q := by rwa [Node.nameIndex, hfn]
  by_cases hpq : p = q
  · subst hpq
    have hU : schema.root.leafAt p = .union bs := by rw [hS]; exact Node.leafAt_record_of_getElem? hp
    have hT' : schema'.root.leafAt p = (Node.union bs).leafAt (carrierIndex (.union bs)) := by
      rw [hS']
      exact Node.leafAt_record_of_getElem? (List.getElem?_set_self (List.getElem?_eq_some_iff.mp hp).1)
    rw [featureStatus_union hq (by rw [hU]; rfl), hU] at hm
    simp only [featureStatus, hq', hT', if_neg hT]
    split at hm
    · exact hm
    · cases hm
  · rw [featureStatus_congr hq hq' (by rw [hS, hS']; simp [Node.leafAt, Node.leafList, hpq]), hm]

/-- A union field read as its carrier: replacing, in a record schema, a union
field by the union's carrier, `Initialize` still succeeds with the same
features, and a record whose union holds the carrier branch decodes to the same
status, dense tensors and buffer as the record holding the carrier's value
directly, from the same tensors and buffer. -/
theorem decodeFDSDatum_unwrap_union (hread : ReadsOwnField runColumn)
    (h : initializeSchema schema (FDSDecoder.new dense sparse varlen) = .ok () st)
    (hS : schema.root = .record name fields) (hp : fields[p]? = some (field, .union bs))
    (hT : ((Node.union bs).leafAt (carrierIndex (.union bs))).type ≠ .union)
    (hS' : schema'.root = .record name' (fields.set p (field, (Node.union bs).leafAt (carrierIndex (.union bs)))))
    {ds : List Datum} {v : Datum} (hr : schema.root.conforms (.record ds) = true)
    (hv : ds[p]? = some (.union (carrierIndex (.union bs)) v)) :
    ∃ st', initializeSchema schema' (FDSDecoder.new dense sparse varlen) = .ok () st' ∧
      ∀ offset (s t : Machine) (rest rest' : List Token),
        s.input = encode (.record ds) ++ rest → t.input = encode (.record (ds.set p v)) ++ rest' →
        s.denseTensors = t.denseTensors → s.buffer = t.buffer →
        s.skippedData.map (·.node) = st.skippedData.map (·.node) →
        t.skippedData.map (·.node) = st'.skippedData.map (·.node) →
        observe (decodeFDSDatum runColumn st offset s) = observe (decodeFDSDatum runColumn st' offset t) := by
  obtain ⟨st', h'⟩ : ∃ st', initializeSchema schema' (FDSDecoder.new dense sparse varlen) = .ok () st' :=
    ⟨_, initializeSchema_unwrap h hS hp hT hS'⟩
  refine ⟨st', h', fun offset s t rest rest' hs ht hd hb hK hK' => ?_⟩
  rw [hS] at hr
  obtain ⟨hlen, hconf⟩ := conformsFields_getElem hr
  obtain ⟨hpl, hpf⟩ := List.getElem?_eq_some_iff.mp hp
  have hvT : ((Node.union bs).leafAt (carrierIndex (.union bs))).conforms v = true := by
    obtain ⟨hpd, hpv⟩ := List.getElem?_eq_some_iff.mp hv
    have := hconf p hpl hpd
    rw [hpf, hpv] at this
    exact conformsBranch_getD this
  have hlen' : (fields.set p (field, (Node.union bs).leafAt (carrierIndex (.union bs)))).length =
      (ds.set p v).length := by simp [hlen]
  have hr' : Node.conforms.conformsFields (fields.set p (field, (Node.union bs).leafAt (carrierIndex (.union bs))))
      (ds.set p v) = true := conformsFields_set hr hpl hvT
  refine observe_decodeFDSDatum_of_forall₂ hread h h' hS hS' hr hr' ?_ hs ht hd hb hK hK'
  have hx : (fields.zip ds)[p]? = some ((field, .union bs), .union (carrierIndex (.union bs)) v) :=
    List.getElem?_zip_eq_some.mpr ⟨hp, hv⟩
  rw [filter_columns_fresh h hS hlen, filter_columns_fresh h' hS' hlen', zip_set_set]
  refine forall₂_filterMap_set hx (fun y hy c hc => ?_) ?_
  · have hc' : c ∈ (columns st ds).filter (!·.skipped) := by
      rw [filter_columns_fresh h hS hlen]
      exact List.mem_filterMap.mpr ⟨y, hy, hc⟩
    obtain ⟨hcc, hcs⟩ := List.mem_filter.mp hc'
    exact Column.alike_self (reads_columns_fresh hread h hS hr c hcc) (by simpa using hcs)
  · simp only [declaredColumn]
    cases hm : ((dense ++ sparse ++ varlen).filter fun m => m.name = field).getLast? with
    | none => exact .none
    | some m =>
      refine .some ⟨rfl, _, _, rfl, rfl, ?_⟩
      have hU : (Node.union bs).type = .union := rfl
      obtain ⟨hmd, hmf⟩ := List.mem_filter.mp (List.mem_of_getLast?_eq_some hm)
      have hname : schema.root.nameIndex m.name = some p := by
        rw [of_decide_eq_true hmf]
        exact schema.nameIndex_of_getElem? hS hp
      have hval := validateSchema_of_featureStatus hname ((initializeSchema_eq_ok.mp h).2.1 m hmd)
      rw [hS, Node.leafAt_record_of_getElem? hp, if_pos hU] at hval
      rw [planEntry, planEntry, if_pos hU, if_neg hT]
      exact readsAlike_nullable hread m _ hval hvT

/-- A long and a nullable int column, against the same record with a plain int
column, with the generic column decoder: both schemas are accepted, and the
two records are seen alike. -/
theorem decodeFDSDatum_unwrap_union_second :
    let m : Metadata := ⟨.dense, "a", .int32, [], 0, 0, 0, by decide⟩
    let schema : ValidSchema := ⟨.record "r" [("x", .long), ("a", .union [.null, .int])], rfl⟩
    let schema' : ValidSchema := ⟨.record "r" [("x", .long), ("a", .int)], rfl⟩
    ∃ st st', initializeSchema schema (FDSDecoder.new [m] [] []) = .ok () st ∧
      initializeSchema schema' (FDSDecoder.new [m] [] []) = .ok () st' ∧
      observe (decodeFDSDatum genericColumn st 0
          ⟨encode (.record [.long 7, .union 1 (.int 5)]), [], ⟨[], [], [], [], [], [], [], []⟩, st.skippedData⟩) =
        observe (decodeFDSDatum genericColumn st' 0
          ⟨encode (.record [.long 7, .int 5]), [], ⟨[], [], [], [], [], [], [], []⟩, st'.skippedData⟩) := by
  intro m schema schema'
  obtain ⟨st, h⟩ : ∃ st, initializeSchema schema (FDSDecoder.new [m] [] []) = .ok () st := ⟨_, rfl⟩
  obtain ⟨st', h', hobs⟩ := @decodeFDSDatum_unwrap_union genericColumn [m] [] [] schema schema' st "r" "r" "a"
    [("x", .long), ("a", .union [.null, .int])] 1 [.null, .int] readsOwnField_genericColumn h rfl rfl (by decide) rfl
    [.long 7, .union 1 (.int 5)] (.int 5) rfl rfl
  exact ⟨st, st', h, h', hobs 0 _ _ [] [] (List.append_nil _).symm (List.append_nil _).symm rfl rfl rfl rfl⟩

end Carrier

end AvroFds.Fds
