import AvroFds.Decode

/-!
Fields no declared feature names are invisible to `DecodeFDSDatum`: what it
returns and writes into the dense tensors and the value buffer is what the
declared columns alone give on their own values, so inserting unused fields
anywhere in the record schema changes neither what `Initialize` accepts nor
what a record decodes to.
-/

namespace AvroFds.Fds

open Schema Wire Buffer Generic

/-- What a caller of `DecodeFDSDatum` sees of a run: the status it returns or
the exception it throws, and the dense tensors and value buffer it leaves. -/
def observe : EStateM.Result Exception Machine Status → Except Exception Status × List Tensor × ValueBuffer
  | .ok status s => (.ok status, s.denseTensors, s.buffer)
  | .error e s => (.error e, s.denseTensors, s.buffer)

theorem observe_ok_eq {status : Status} {s : Machine} {r : EStateM.Result Exception Machine Status}
    (h : observe (.ok status s) = observe r) :
    ∃ t, r = .ok status t ∧ s.denseTensors = t.denseTensors ∧ s.buffer = t.buffer := by
  cases r with
  | ok status' t =>
    simp only [observe, Prod.mk.injEq, Except.ok.injEq] at h
    obtain ⟨rfl, h₁, h₂⟩ := h
    exact ⟨t, rfl, h₁, h₂⟩
  | error e t => simp [observe] at h

theorem observe_error_eq {e : Exception} {s : Machine} {r : EStateM.Result Exception Machine Status}
    (h : observe (.error e s) = observe r) :
    ∃ t, r = .error e t ∧ s.denseTensors = t.denseTensors ∧ s.buffer = t.buffer := by
  cases r with
  | ok status t => simp [observe] at h
  | error e' t =>
    simp only [observe, Prod.mk.injEq, Except.error.injEq] at h
    obtain ⟨rfl, h₁, h₂⟩ := h
    exact ⟨t, rfl, h₁, h₂⟩

/-- A column of a record as `DecodeFDSDatum` meets it: its plan entry, its
feature name and the value the record holds there. -/
structure Column where
  decoder : Option FeatureDecoder
  name : String
  value : Datum

/-- A column the plan skips: one of the `opaque_contextual` decoders. -/
def Column.skipped (c : Column) : Bool :=
  match c.decoder with
  | some (.opaqueContextual _) => true
  | _ => false

/-- The columns' values as they follow each other on the wire. -/
def wire (cols : List Column) : List Token := (cols.map (·.value)).flatMap encode

theorem wire_cons (c : Column) (cols : List Column) : wire (c :: cols) = encode c.value ++ wire cols := by
  simp [wire]

section Columns

variable (runColumn : Node → Metadata → Nat → DecodeM Status)

/-- A plan entry reads the encoding of `v` and nothing after it: the status it
returns (or the exception it throws) and the dense tensors and buffer it leaves
depend on `v` and on the tensors and buffer it starts from only, and when it
returns OK it has consumed exactly `v` and left the skipped data alone. -/
def ReadsValue (d : FeatureDecoder) (v : Datum) : Prop :=
  ∀ offset (s t : Machine) (rest rest' : List Token), s.input = encode v ++ rest → t.input = encode v ++ rest' →
    s.denseTensors = t.denseTensors → s.buffer = t.buffer →
    observe (d.decode runColumn offset s) = observe (d.decode runColumn offset t) ∧
      ∀ s', d.decode runColumn offset s = .ok .ok s' → s'.input = rest ∧ s'.skippedData = s.skippedData

/-- Two plan entries read two values alike: from streams that start with the
values they are seen alike, and when either returns OK it has consumed exactly
its own value and left the skipped data alone. -/
def ReadsAlike (d : FeatureDecoder) (v : Datum) (d' : FeatureDecoder) (v' : Datum) : Prop :=
  ∀ offset (s t : Machine) (rest rest' : List Token), s.input = encode v ++ rest → t.input = encode v' ++ rest' →
    s.denseTensors = t.denseTensors → s.buffer = t.buffer →
    observe (d.decode runColumn offset s) = observe (d'.decode runColumn offset t) ∧
      (∀ s', d.decode runColumn offset s = .ok .ok s' → s'.input = rest ∧ s'.skippedData = s.skippedData) ∧
      ∀ t', d'.decode runColumn offset t = .ok .ok t' → t'.input = rest' ∧ t'.skippedData = t.skippedData

/-- Every decoder `CreateFeatureDecoder` builds, from a node and a feature
that `ValidateSchema` accepts, consumes exactly its own field's encoding. -/
def ReadsOwnField : Prop :=
  ∀ node m v, validateSchema node m = .ok → node.conforms v = true → ReadsValue runColumn (.column node m) v

theorem readsValue_planEntry (hread : ReadsOwnField runColumn) {node : Node} {v : Datum} (m : Metadata)
    (hval : validateSchema (if node.type = .union then node.leafAt (carrierIndex node) else node) m = .ok)
    (hv : node.conforms v = true) : ReadsValue runColumn (planEntry node m) v := by
  unfold planEntry
  split
  · rename_i hu
    rw [if_pos hu] at hval
    obtain ⟨bs, rfl⟩ : ∃ bs, node = .union bs := by
      cases node <;> first | exact ⟨_, rfl⟩ | cases hu
    obtain ⟨k, w, rfl, hw⟩ : ∃ k w, v = .union k w ∧ Node.conforms.conformsBranch bs k w = true := by
      cases v <;> first | exact ⟨_, _, rfl, hv⟩ | cases hv
    intro offset s t rest rest' hs ht hd hb
    rw [decode_nullable runColumn _ _ offset s k _ hs, decode_nullable runColumn _ _ offset t k _ ht,
      toSizeT_natCast]
    by_cases hk : k = carrierIndex (.union bs)
    · rw [if_pos hk, if_pos hk]
      subst hk
      exact hread (bs.getD _ .null) m w hval (conformsBranch_getD hw) offset _ _ rest rest' rfl rfl hd hb
    · rw [if_neg hk, if_neg hk]
      exact ⟨by simp [observe, hd, hb], fun _ h => by cases h⟩
  · rename_i hu
    rw [if_neg hu] at hval
    exact hread node m v hval hv

/-- The column can be read from the encoding of its value, against the nodes
`K` of the skipped data. -/
def Column.Reads (K : List Node) (c : Column) : Prop :=
  match c.decoder with
  | some (.opaqueContextual j) => ∃ node, K[j]? = some node ∧ node.conforms c.value = true
  | some d => ReadsValue runColumn d c.value
  | none => False

/-- Two columns of one feature whose plan entries read their values alike. -/
def Column.Alike (c c' : Column) : Prop :=
  c.name = c'.name ∧ ∃ d d', c.decoder = some d ∧ c'.decoder = some d' ∧ ReadsAlike runColumn d c.value d' c'.value

/-- The loop of `DecodeFDSDatum` over the columns. -/
def runColumns (offset : Nat) (cols : List Column) : DecodeM Status :=
  decodeColumns runColumn offset (cols.map (·.decoder)) (cols.map (·.name))

variable {runColumn} {offset : Nat} {K : List Node}

theorem ReadsValue.alike {d : FeatureDecoder} {v : Datum} (h : ReadsValue runColumn d v) :
    ReadsAlike runColumn d v d v := fun offset s t rest rest' hs ht hd hb =>
  ⟨(h offset s t rest rest' hs ht hd hb).1, (h offset s t rest rest' hs ht hd hb).2,
    (h offset t s rest' rest ht hs hd.symm hb.symm).2⟩

theorem observe_runColumns_cons_alike {c c' : Column} {cols cols' : List Column} {rest rest' : List Token}
    (hc : c.Alike runColumn c')
    (ih : ∀ s t : Machine, s.input = wire cols ++ rest → t.input = wire cols' ++ rest' →
      s.denseTensors = t.denseTensors → s.buffer = t.buffer → s.skippedData.map (·.node) = K →
      observe (runColumns runColumn offset cols s) = observe (runColumns runColumn offset cols' t))
    {s t : Machine} (hs : s.input = wire (c :: cols) ++ rest) (ht : t.input = wire (c' :: cols') ++ rest')
    (hd : s.denseTensors = t.denseTensors) (hb : s.buffer = t.buffer) (hK : s.skippedData.map (·.node) = K) :
    observe (runColumns runColumn offset (c :: cols) s) = observe (runColumns runColumn offset (c' :: cols') t) := by
  obtain ⟨dec, name, v⟩ := c
  obtain ⟨dec', name', v'⟩ := c'
  obtain ⟨rfl, d, d', rfl, rfl, halike⟩ := hc
  rw [wire_cons, List.append_assoc] at hs ht
  obtain ⟨hobs, hcont, hcont'⟩ := halike offset s t _ _ hs ht hd hb
  simp only [runColumns, List.map_cons]
  cases hA : d.decode runColumn offset s with
  | ok status s₁ =>
    rw [hA] at hobs
    obtain ⟨t₁, hB, hd₁, hb₁⟩ := observe_ok_eq hobs
    by_cases hst : status = .ok
    · subst hst
      rw [decodeColumns_cons_ok runColumn hA, decodeColumns_cons_ok runColumn hB]
      obtain ⟨hin₁, hsk₁⟩ := hcont s₁ hA
      exact ih s₁ t₁ hin₁ (hcont' t₁ hB).1 hd₁ hb₁ (hsk₁ ▸ hK)
    · rw [decodeColumns_cons_status runColumn hA hst, decodeColumns_cons_status runColumn hB hst]
      simp [observe, hd₁, hb₁]
  | error e s₁ =>
    rw [hA] at hobs
    obtain ⟨t₁, hB, hd₁, hb₁⟩ := observe_error_eq hobs
    rw [decodeColumns_cons_error runColumn hA, decodeColumns_cons_error runColumn hB]
    simp [observe, hd₁, hb₁]

theorem observe_runColumns_cons {c : Column} {d : FeatureDecoder} {cols cols' : List Column}
    {rest rest' : List Token} (hc : c.decoder = some d) (hread : ReadsValue runColumn d c.value)
    (ih : ∀ s t : Machine, s.input = wire cols ++ rest → t.input = wire cols' ++ rest' →
      s.denseTensors = t.denseTensors → s.buffer = t.buffer → s.skippedData.map (·.node) = K →
      observe (runColumns runColumn offset cols s) = observe (runColumns runColumn offset cols' t))
    {s t : Machine} (hs : s.input = wire (c :: cols) ++ rest) (ht : t.input = wire (c :: cols') ++ rest')
    (hd : s.denseTensors = t.denseTensors) (hb : s.buffer = t.buffer) (hK : s.skippedData.map (·.node) = K) :
    observe (runColumns runColumn offset (c :: cols) s) = observe (runColumns runColumn offset (c :: cols') t) :=
  observe_runColumns_cons_alike ⟨rfl, d, d, hc, hc, hread.alike⟩ ih hs ht hd hb hK

theorem runColumns_cons_skipped {c : Column} {j : Nat} {cols : List Column} {rest : List Token} {s : Machine}
    (hc : c.decoder = some (.opaqueContextual j)) (hr : c.Reads runColumn K)
    (hs : s.input = wire (c :: cols) ++ rest) (hK : s.skippedData.map (·.node) = K) :
    ∃ s₁, runColumns runColumn offset (c :: cols) s = runColumns runColumn offset cols s₁ ∧
      s₁.input = wire cols ++ rest ∧ s₁.denseTensors = s.denseTensors ∧ s₁.buffer = s.buffer ∧
      s₁.skippedData.map (·.node) = K := by
  obtain ⟨dec, name, v⟩ := c
  subst hc
  obtain ⟨node, hj, hv⟩ := hr
  obtain ⟨g, hg, rfl⟩ : ∃ g, s.skippedData[j]? = some g ∧ g.node = node := by
    have := congrArg (·[j]?) hK
    simp only [List.getElem?_map, hj] at this
    exact Option.map_eq_some'.mp this
  rw [wire_cons, List.append_assoc] at hs
  have hrun := decodeSkipped_run hg hv _ hs
  exact ⟨_, decodeColumns_cons_ok runColumn hrun, rfl, rfl, rfl, (map_node_set hg v).trans hK⟩

theorem observe_runColumns_declared :
    ∀ (cols : List Column), (∀ c ∈ cols, c.Reads runColumn K) →
    ∀ (s t : Machine) (rest rest' : List Token), s.input = wire cols ++ rest →
      t.input = wire (cols.filter (!·.skipped)) ++ rest' → s.denseTensors = t.denseTensors → s.buffer = t.buffer →
      s.skippedData.map (·.node) = K →
      observe (runColumns runColumn offset cols s) =
        observe (runColumns runColumn offset (cols.filter (!·.skipped)) t)
  | [], _, _, _, _, _, _, _, hd, hb, _ => by simp [runColumns, decodeColumns, observe, hd, hb]
  | c :: cols, hr, s, t, rest, rest', hs, ht, hd, hb, hK => by
    have ih := observe_runColumns_declared cols fun c' hc' => hr c' (List.mem_cons_of_mem _ hc')
    have hc := hr c (List.mem_cons_self _ _)
    obtain ⟨dec, name, v⟩ := c
    match dec, hc with
    | none, hc => exact hc.elim
    | some (.opaqueContextual j), hc =>
      rw [List.filter_cons_of_neg (by simp [Column.skipped])] at ht ⊢
      obtain ⟨s₁, hrun, hs₁, hd₁, hb₁, hK₁⟩ := runColumns_cons_skipped rfl hc hs hK
      rw [hrun]
      exact ih s₁ t rest rest' hs₁ ht (hd₁.trans hd) (hb₁.trans hb) hK₁
    | some (.column node m), hc =>
      rw [List.filter_cons_of_pos (by simp [Column.skipped])] at ht ⊢
      exact observe_runColumns_cons rfl hc (fun s t => ih s t rest rest') hs ht hd hb hK
    | some (.nullable d k), hc =>
      rw [List.filter_cons_of_pos (by simp [Column.skipped])] at ht ⊢
      exact observe_runColumns_cons rfl hc (fun s t => ih s t rest rest') hs ht hd hb hK

theorem Column.reads_declared {c : Column} {d : FeatureDecoder} (hc : c.decoder = some d)
    (hd : ∀ j, d ≠ .opaqueContextual j) (hread : ReadsValue runColumn d c.value) : c.Reads runColumn K := by
  obtain ⟨dec, name, v⟩ := c
  subst hc
  cases d with
  | opaqueContextual j => exact absurd rfl (hd j)
  | column node m => exact hread
  | nullable d k => exact hread

theorem Column.skipped_declared {c : Column} {d : FeatureDecoder} (hc : c.decoder = some d)
    (hd : ∀ j, d ≠ .opaqueContextual j) : c.skipped = false := by
  obtain ⟨dec, name, v⟩ := c
  subst hc
  cases d with
  | opaqueContextual j => exact absurd rfl (hd j)
  | column node m => rfl
  | nullable d k => rfl

end Columns

/-- The columns of a record of `st`'s schema holding the values `ds`. -/
def columns (st : FDSDecoder) (ds : List Datum) : List Column :=
  (st.decoders.zip (st.featureNames.zip ds)).map fun (o, name, v) => ⟨o, name, v⟩

theorem getElem?_columns_eq_some {st : FDSDecoder} {ds : List Datum} {p : Nat} {c : Column} :
    (columns st ds)[p]? = some c ↔
      st.decoders[p]? = some c.decoder ∧ st.featureNames[p]? = some c.name ∧ ds[p]? = some c.value := by
  obtain ⟨o, n, v⟩ := c
  simp only [columns, List.getElem?_map, Option.map_eq_some', List.getElem?_zip_eq_some]
  constructor
  · rintro ⟨⟨o', n', v'⟩, ⟨h₁, h₂, h₃⟩, heq⟩
    cases heq
    exact ⟨h₁, h₂, h₃⟩
  · rintro ⟨h₁, h₂, h₃⟩
    exact ⟨(o, n, v), ⟨h₁, h₂, h₃⟩, rfl⟩

theorem decodeFDSDatum_eq_runColumns (runColumn : Node → Metadata → Nat → DecodeM Status) {st : FDSDecoder}
    {ds : List Datum} (h₁ : st.decoders.length = ds.length) (h₂ : st.featureNames.length = ds.length)
    (offset : Nat) : decodeFDSDatum runColumn st offset = runColumns runColumn offset (columns st ds) := by
  have hd : (columns st ds).map (·.decoder) = st.decoders := by
    rw [columns, List.map_map]
    exact (List.map_congr_left fun _ _ => rfl).trans (List.map_fst_zip _ _ (by simp [h₁, h₂]))
  have hn : (columns st ds).map (·.name) = st.featureNames := by
    rw [columns, List.map_map]
    refine (List.map_congr_left fun _ _ => rfl).trans (?_ : List.map (Prod.fst ∘ Prod.snd) _ = _)
    rw [← List.map_map, List.map_snd_zip _ _ (by simp [h₁, h₂]), List.map_fst_zip _ _ (by simp [h₂])]
  rw [decodeFDSDatum, runColumns, hd, hn]

theorem wire_columns {st : FDSDecoder} {ds : List Datum} (h₁ : st.decoders.length = ds.length)
    (h₂ : st.featureNames.length = ds.length) : wire (columns st ds) = encode (.record ds) := by
  have hv : (columns st ds).map (·.value) = ds := by
    rw [columns, List.map_map]
    refine (List.map_congr_left fun _ _ => rfl).trans (?_ : List.map (Prod.snd ∘ Prod.snd) _ = _)
    rw [← List.map_map, List.map_snd_zip _ _ (by simp [h₁, h₂]), List.map_snd_zip _ _ (by simp [h₂])]
  rw [wire, hv, encode, encodeAll_eq]

/-- The column a field holding `v` makes when a declared feature names it: the
plan entry and the name of the last one. -/
def declaredColumn (decls : List Metadata) (fv : (String × Node) × Datum) : Option Column :=
  ((decls.filter fun m => m.name = fv.1.1).getLast?).map fun m => ⟨some (planEntry fv.1.2 m), m.name, fv.2⟩

theorem filter_eq_filterMap_of_getElem? {l₁ : List α} {l₂ : List β} {p : α → Bool} {f : β → Option α}
    (hlen : l₁.length = l₂.length)
    (h : ∀ (i : Nat) x y, l₁[i]? = some x → l₂[i]? = some y → f y = if p x then some x else none) :
    l₁.filter p = l₂.filterMap f := by
  induction l₁ generalizing l₂ with
  | nil => cases l₂ with
    | nil => rfl
    | cons => cases hlen
  | cons x l₁ ih =>
    cases l₂ with
    | nil => cases hlen
    | cons y l₂ =>
      rw [List.filter_cons, List.filterMap_cons, h 0 x y (List.getElem?_cons_zero) (List.getElem?_cons_zero),
        ih (Nat.succ.inj hlen) fun i x' y' hx hy =>
          h (i + 1) x' y' (by rwa [List.getElem?_cons_succ]) (by rwa [List.getElem?_cons_succ])]
      by_cases hx : p x <;> simp [hx]

theorem filterMap_eq_of_sublist {l₁ l₂ : List α} {f : α → Option β} (hsub : l₁.Sublist l₂) (hnd : l₂.Nodup)
    (hnone : ∀ x ∈ l₂, x ∉ l₁ → f x = none) : l₁.filterMap f = l₂.filterMap f := by
  induction hsub with
  | slnil => rfl
  | cons a hsub ih =>
    rw [List.nodup_cons] at hnd
    rw [List.filterMap_cons_none (hnone a (List.mem_cons_self _ _) fun h => hnd.1 (hsub.subset h))]
    exact ih hnd.2 fun x hx hnx => hnone x (List.mem_cons_of_mem _ hx) hnx
  | cons₂ a hsub ih =>
    rw [List.nodup_cons] at hnd
    have hnone' : ∀ x ∈ _, x ∉ _ → f x = none := fun x hx hnx =>
      hnone x (List.mem_cons_of_mem _ hx) fun h => (List.mem_cons.mp h).elim (fun h => hnd.1 (h ▸ hx)) hnx
    simp only [List.filterMap_cons, ih hnd.2 hnone']

section Fresh

variable {dense sparse varlen : List Metadata} {schema : ValidSchema} {st : FDSDecoder}

theorem getElem?_plan_fresh (h : initializeSchema schema (FDSDecoder.new dense sparse varlen) = .ok () st)
    {p : Nat} (hp : p < schema.root.leaves) :
    (∃ m, claimant schema.root (dense ++ sparse ++ varlen) p = some m ∧
        st.decoders[p]? = some (some (planEntry (schema.root.leafAt p) m)) ∧ st.featureNames[p]? = some m.name) ∨
      (claimant schema.root (dense ++ sparse ++ varlen) p = none ∧ ∃ j,
        st.decoders[p]? = some (some (.opaqueContextual j)) ∧
        st.skippedData[j]? = some (GenericDatum.ofNode (schema.root.leafAt p))) := by
  cases hc : claimant schema.root (dense ++ sparse ++ varlen) p with
  | some m =>
    obtain ⟨-, -, rfl⟩ := initializeSchema_eq_ok.mp h
    obtain ⟨hd, -, hn⟩ := @getElem?_initialized_of_claimant schema (FDSDecoder.new dense sparse varlen) p m hp hc
    exact .inl ⟨m, rfl, hd, hn⟩
  | none =>
    have hmem : p ∈ unusedColumns schema (FDSDecoder.new dense sparse varlen).declared :=
      List.mem_filter.mpr ⟨List.mem_range.mpr hp, (claimant_eq_none_iff _ p).mp hc⟩
    obtain ⟨j, hj⟩ := List.mem_iff_getElem?.mp hmem
    refine .inr ⟨rfl, j, (getElem?_decoders_fresh h p j).mpr hj, ?_⟩
    rw [skippedData_fresh h, List.getElem?_map, hj]
    rfl

theorem length_plan_fresh (h : initializeSchema schema (FDSDecoder.new dense sparse varlen) = .ok () st) :
    st.decoders.length = schema.root.leaves ∧ st.featureNames.length = schema.root.leaves := by
  obtain ⟨-, -, rfl⟩ := initializeSchema_eq_ok.mp h
  exact ⟨(length_initialized _ _).2.2, (length_initialized _ _).1⟩

variable {name : String} {fields : List (String × Node)} {ds : List Datum}

theorem reads_columns_fresh {runColumn : Node → Metadata → Nat → DecodeM Status} (hread : ReadsOwnField runColumn)
    (h : initializeSchema schema (FDSDecoder.new dense sparse varlen) = .ok () st)
    (hS : schema.root = .record name fields) (hr : Node.conforms.conformsFields fields ds = true) :
    ∀ c ∈ columns st ds, c.Reads runColumn (st.skippedData.map (·.node)) := by
  intro c hc
  obtain ⟨p, hp⟩ := List.mem_iff_getElem?.mp hc
  obtain ⟨hdp, -, hvp⟩ := getElem?_columns_eq_some.mp hp
  obtain ⟨hlen, hfd⟩ := conformsFields_getElem hr
  obtain ⟨hpd, hdv⟩ := List.getElem?_eq_some_iff.mp hvp
  have hpl : p < fields.length := hlen ▸ hpd
  have hconf : (schema.root.leafAt p).conforms c.value = true := by
    rw [← hdv, hS, Node.leafAt_record_of_getElem? (List.getElem?_eq_getElem hpl)]
    exact hfd p hpl hpd
  rcases getElem?_plan_fresh h (by rw [hS, Node.leaves_record]; exact hpl) with ⟨m, hm, hd, -⟩ | ⟨-, j, hd, hj⟩
  · have hcd := (Option.some.inj (hd.symm.trans hdp)).symm
    obtain ⟨hmd, hmp⟩ := List.mem_filter.mp (List.mem_of_getLast?_eq_some hm)
    have hval := validateSchema_of_featureStatus (of_decide_eq_true hmp) ((initializeSchema_eq_ok.mp h).2.1 m hmd)
    exact Column.reads_declared hcd (planEntry_ne_opaqueContextual _ _)
      (readsValue_planEntry runColumn hread m hval hconf)
  · have hcd := (Option.some.inj (hd.symm.trans hdp)).symm
    unfold Column.Reads
    rw [hcd]
    exact ⟨_, by rw [List.getElem?_map, hj]; rfl, hconf⟩

theorem filter_columns_fresh (h : initializeSchema schema (FDSDecoder.new dense sparse varlen) = .ok () st)
    (hS : schema.root = .record name fields) (hlen : fields.length = ds.length) :
    (columns st ds).filter (!·.skipped) = (fields.zip ds).filterMap (declaredColumn (dense ++ sparse ++ varlen)) := by
  obtain ⟨hl₁, hl₂⟩ := length_plan_fresh h
  rw [hS, Node.leaves_record] at hl₁ hl₂
  refine filter_eq_filterMap_of_getElem? (by simp [columns, hl₁, hl₂, hlen]) fun p c y hc hy => ?_
  obtain ⟨hdp, hnp, hvp⟩ := getElem?_columns_eq_some.mp hc
  obtain ⟨hfp, hvp'⟩ := List.getElem?_zip_eq_some.mp hy
  have hpl : p < fields.length := (List.getElem?_eq_some_iff.mp hfp).1
  have hname : schema.root.nameIndex y.1.1 = some p := schema.nameIndex_of_getElem? hS hfp
  have hleaf : schema.root.leafAt p = y.1.2 := by
    rw [hS]
    exact Node.leafAt_record_of_getElem? hfp
  have hclaim : claimant schema.root (dense ++ sparse ++ varlen) p =
      ((dense ++ sparse ++ varlen).filter fun m => m.name = y.1.1).getLast? :=
    claimant_eq_of_nameIndex schema.fieldNames_nodup hname
  rw [declaredColumn, ← hclaim]
  rcases getElem?_plan_fresh h (by rw [hS, Node.leaves_record]; exact hpl) with ⟨m, hm, hd, hn⟩ | ⟨hm, j, hd, -⟩
  · have hcd := (Option.some.inj (hd.symm.trans hdp)).symm
    rw [hm, Column.skipped_declared hcd (planEntry_ne_opaqueContextual _ _)]
    obtain ⟨cd, cn, cv⟩ := c
    obtain rfl : cn = m.name := Option.some.inj (hnp.symm.trans hn)
    obtain rfl : cv = y.2 := Option.some.inj (hvp.symm.trans hvp')
    dsimp only at hcd
    rw [hcd, hleaf]
    rfl
  · have hcd := (Option.some.inj (hd.symm.trans hdp)).symm
    obtain ⟨cd, cn, cv⟩ := c
    dsimp only at hcd
    subst hcd
    rw [hm]
    rfl

theorem initializeSchema_of_sublist {schema' : ValidSchema} {name' : String} {fields' : List (String × Node)}
    (h : initializeSchema schema (FDSDecoder.new dense sparse varlen) = .ok () st)
    (hS : schema.root = .record name fields) (hS' : schema'.root = .record name' fields')
    (hsub : fields.Sublist fields') :
    initializeSchema schema' (FDSDecoder.new dense sparse varlen) =
      .ok () (initialized schema' (FDSDecoder.new dense sparse varlen)) := by
  obtain ⟨-, hall, -⟩ := initializeSchema_eq_ok.mp h
  have hnd' : (fields'.map Prod.fst).Nodup := by
    have := schema'.fieldNames_nodup
    rwa [hS'] at this
  refine initializeSchema_eq_ok.mpr ⟨by rw [hS']; rfl, fun m hm => ?_, rfl⟩
  have hm' := hall m hm
  obtain ⟨p, hp⟩ := exists_nameIndex_of_featureStatus hm'
  rw [hS] at hp hm'
  obtain ⟨q, hq, hl⟩ := Node.nameIndex_of_sublist name name' hsub hnd' hp
  rw [hS', featureStatus_congr hp hq hl, hm']

theorem declaredColumn_eq_none {fields' : List (String × Node)} {ds' : List Datum}
    (h : initializeSchema schema (FDSDecoder.new dense sparse varlen) = .ok () st)
    (hS : schema.root = .record name fields) (hlen : fields.length = ds.length)
    (hnd : ((fields'.zip ds').map fun x => x.1.1).Nodup) (hsub : (fields.zip ds).Sublist (fields'.zip ds'))
    {x : (String × Node) × Datum} (hx : x ∈ fields'.zip ds') (hnx : x ∉ fields.zip ds) :
    declaredColumn (dense ++ sparse ++ varlen) x = none := by
  obtain ⟨-, hall, -⟩ := initializeSchema_eq_ok.mp h
  cases hdc : declaredColumn (dense ++ sparse ++ varlen) x with
  | none => rfl
  | some c =>
    obtain ⟨m, hm, -⟩ := Option.map_eq_some'.mp hdc
    obtain ⟨hmd, hmx⟩ := List.mem_filter.mp (List.mem_of_getLast?_eq_some hm)
    obtain ⟨p, hp⟩ := exists_nameIndex_of_featureStatus (hall m hmd)
    rw [Node.nameIndex_eq_some_iff schema.fieldNames_nodup, hS] at hp
    obtain ⟨f, hf, hfn⟩ : ∃ f, fields[p]? = some f ∧ f.1 = m.name := by
      simpa [Node.fieldNames, List.getElem?_map] using hp
    have hpd : p < ds.length := hlen ▸ (List.getElem?_eq_some_iff.mp hf).1
    have hy : (f, ds[p]) ∈ fields.zip ds :=
      List.mem_iff_getElem?.mpr ⟨p, List.getElem?_zip_eq_some.mpr ⟨hf, List.getElem?_eq_getElem hpd⟩⟩
    have hxy := List.inj_on_of_nodup_map hnd hx (hsub.subset hy) ((of_decide_eq_true hmx).symm.trans hfn.symm)
    exact absurd (hxy ▸ hy) hnx

end Fresh

/-- A column decoder that reads its field with the generic reader and stores
nothing. -/
def genericColumn (node : Node) (_ : Metadata) (_ : Nat) : DecodeM Status := do
  let _ ← read (decodeDatum node)
  pure .ok

theorem readsOwnField_genericColumn : ReadsOwnField genericColumn := by
  intro node m v _ hv offset s t rest rest' hs ht hd hb
  have hrun : ∀ (u : Machine) (rest : List Token), u.input = encode v ++ rest →
      (FeatureDecoder.column node m).decode genericColumn offset u = .ok .ok { u with input := rest } :=
    fun u rest hu => bind_ok (read_ok (by rw [hu]; exact decodeDatum_encode node v hv rest))
  rw [hrun s rest hs, hrun t rest' ht]
  exact ⟨by simp [observe, hd, hb], fun s' h' => by cases h'; exact ⟨rfl, rfl⟩⟩

section Insert

variable {runColumn : Node → Metadata → Nat → DecodeM Status}

/-- Inserting fields anywhere in a record schema: `Initialize` still succeeds
with the same features, and a record holding the old record's values in the old
fields, whatever it holds in the new ones, decodes to the same status, dense
tensors and buffer as the old record, from the same tensors and buffer. -/
theorem decodeFDSDatum_insert_unused (hread : ReadsOwnField runColumn)
    {dense sparse varlen : List Metadata} {schema schema' : ValidSchema} {st : FDSDecoder}
    {name name' : String} {fields fields' : List (String × Node)} {ds ds' : List Datum}
    (h : initializeSchema schema (FDSDecoder.new dense sparse varlen) = .ok () st)
    (hS : schema.root = .record name fields) (hS' : schema'.root = .record name' fields')
    (hr : schema.root.conforms (.record ds) = true) (hr' : schema'.root.conforms (.record ds') = true)
    (hsub : (fields.zip ds).Sublist (fields'.zip ds')) :
    ∃ st', initializeSchema schema' (FDSDecoder.new dense sparse varlen) = .ok () st' ∧
      ∀ offset (s t : Machine) (rest rest' : List Token),
        s.input = encode (.record ds) ++ rest → t.input = encode (.record ds') ++ rest' →
        s.denseTensors = t.denseTensors → s.buffer = t.buffer →
        s.skippedData.map (·.node) = st.skippedData.map (·.node) →
        t.skippedData.map (·.node) = st'.skippedData.map (·.node) →
        observe (decodeFDSDatum runColumn st offset s) = observe (decodeFDSDatum runColumn st' offset t) := by
  rw [hS] at hr
  rw [hS'] at hr'
  have hlen := (conformsFields_getElem hr).1
  have hlen' := (conformsFields_getElem hr').1
  have hfsub : fields.Sublist fields' := by
    have := hsub.map Prod.fst
    rwa [List.map_fst_zip _ _ hlen.le, List.map_fst_zip _ _ hlen'.le] at this
  obtain ⟨st', h'⟩ : ∃ st', initializeSchema schema' (FDSDecoder.new dense sparse varlen) = .ok () st' :=
    ⟨_, initializeSchema_of_sublist h hS hS' hfsub⟩
  refine ⟨st', h', fun offset s t rest rest' hs ht hd hb hK hK' => ?_⟩
  have hnd : ((fields'.zip ds').map fun x => x.1.1).Nodup := by
    have := schema'.fieldNames_nodup
    rw [hS'] at this
    have hm : ((fields'.zip ds').map fun x => x.1.1) = fields'.map Prod.fst :=
      (List.map_map Prod.fst Prod.fst _).symm.trans (by rw [List.map_fst_zip _ _ hlen'.le])
    rwa [hm]
  have hview : (columns st ds).filter (!·.skipped) = (columns st' ds').filter (!·.skipped) := by
    rw [filter_columns_fresh h hS hlen, filter_columns_fresh h' hS' hlen']
    exact filterMap_eq_of_sublist hsub (List.Nodup.of_map _ hnd) fun x hx hnx =>
      declaredColumn_eq_none h hS hlen hnd hsub hx hnx
  obtain ⟨hl₁, hl₂⟩ := length_plan_fresh h
  obtain ⟨hl₁', hl₂'⟩ := length_plan_fresh h'
  rw [hS, Node.leaves_record, hlen] at hl₁ hl₂
  rw [hS', Node.leaves_record, hlen'] at hl₁' hl₂'
  rw [decodeFDSDatum_eq_runColumns runColumn hl₁ hl₂, decodeFDSDatum_eq_runColumns runColumn hl₁' hl₂']
  rw [← wire_columns hl₁ hl₂] at hs
  rw [← wire_columns hl₁' hl₂'] at ht
  calc observe (runColumns runColumn offset (columns st ds) s)
      = observe (runColumns runColumn offset ((columns st ds).filter (!·.skipped))
          { s with input := wire ((columns st ds).filter (!·.skipped)) }) :=
        observe_runColumns_declared _ (reads_columns_fresh hread h hS hr) s _ rest [] hs
          (List.append_nil _).symm rfl rfl hK
    _ = observe (runColumns runColumn offset (columns st' ds') t) := by
        rw [hview]
        exact (observe_runColumns_declared _ (reads_columns_fresh hread h' hS' hr') t
          { s with input := wire ((columns st' ds').filter (!·.skipped)) } rest' [] ht
          (List.append_nil _).symm hd.symm hb.symm hK').symm

/-- A declared `int` column, and the same schema with an unused `long` column
in front of it: both are accepted, with the generic column decoder. -/
theorem decodeFDSDatum_insert_front :
    let m : Metadata := ⟨.dense, "a", .int32, [], 0, 0, 0, by decide⟩
    ReadsOwnField genericColumn ∧
      (∃ st, initializeSchema ⟨.record "r" [("a", .int)], rfl⟩ (FDSDecoder.new [m] [] []) = .ok () st) ∧
      ∃ st', initializeSchema ⟨.record "r" [("x", .long), ("a", .int)], rfl⟩ (FDSDecoder.new [m] [] []) =
        .ok () st' := by
  intro m
  obtain ⟨st, h⟩ : ∃ st, initializeSchema ⟨.record "r" [("a", .int)], rfl⟩ (FDSDecoder.new [m] [] []) =
      .ok () st := ⟨_, rfl⟩
  refine ⟨readsOwnField_genericColumn, ⟨st, h⟩, ?_⟩
  obtain ⟨st', h', -⟩ := @decodeFDSDatum_insert_unused genericColumn readsOwnField_genericColumn [m] [] []
    ⟨.record "r" [("a", .int)], rfl⟩ ⟨.record "r" [("x", .long), ("a", .int)], rfl⟩ st "r" "r"
    [("a", .int)] [("x", .long), ("a", .int)] [.int 5] [.long 7, .int 5] h rfl rfl rfl rfl
    (List.Sublist.cons _ (List.Sublist.refl _))
  exact ⟨st', h'⟩

end Insert

end AvroFds.Fds
