import AvroFds.Projection

/-!
One record through `DecodeFDSDatum`: the loop stops at the first plan entry
that does not return OK and names it, and a record read to the end leaves in
the skipped data exactly its own values of the unused columns.
-/

namespace AvroFds.Fds

open Schema Wire Buffer Generic

section Loop

variable (runColumn : Node → Metadata → Nat → DecodeM Status) {offset : Nat}

theorem decodeColumns_cons_eq_ok {d : FeatureDecoder} {ds : List (Option FeatureDecoder)} {names : List String}
    {s s' : Machine} (h : decodeColumns runColumn offset (some d :: ds) names s = .ok .ok s') :
    ∃ s₁, d.decode runColumn offset s = .ok .ok s₁ ∧ decodeColumns runColumn offset ds names.tail s₁ = .ok .ok s' := by
  rw [decodeColumns] at h
  obtain ⟨status, s₁, hA, h⟩ := bind_eq_ok h
  by_cases hst : status = .ok
  · subst hst
    exact ⟨s₁, hA, h⟩
  · rw [if_neg hst] at h
    cases hn : names.head? <;> rw [hn] at h <;> cases h

theorem tail_take_succ (names : List String) (k : Nat) : (names.take (k + 1)).tail = names.tail.take k := by
  cases names <;> simp

theorem decodeColumns_of_take_ok : ∀ (i : Nat) (ds : List (Option FeatureDecoder)) (names : List String)
    (s t : Machine), decodeColumns runColumn offset (ds.take i) (names.take i) s = .ok .ok t →
      decodeColumns runColumn offset ds names s = decodeColumns runColumn offset (ds.drop i) (names.drop i) t
  | 0, _, _, _, _, h => by cases h; rfl
  | _ + 1, [], _, _, _, h => by cases h; rfl
  | _ + 1, none :: _, _, _, _, h => by cases h
  | i + 1, some d :: ds, names, s, t, h => by
    obtain ⟨s₁, hA, h₁⟩ := decodeColumns_cons_eq_ok runColumn h
    rw [tail_take_succ] at h₁
    rw [decodeColumns_cons_ok runColumn hA, decodeColumns_of_take_ok i ds names.tail s₁ t h₁, List.drop_tail]
    rfl

theorem exists_of_decodeColumns_eq_status {status : Status} (hst : status ≠ .ok) :
    ∀ (ds : List (Option FeatureDecoder)) (names : List String) (s s' : Machine),
      decodeColumns runColumn offset ds names s = .ok status s' →
        ∃ i t d e name, decodeColumns runColumn offset (ds.take i) (names.take i) s = .ok .ok t ∧
          ds[i]? = some (some d) ∧ names[i]? = some name ∧
          d.decode runColumn offset t = .ok e s' ∧ e ≠ .ok ∧ status = .featureDecode name e
  | [], _, _, _, h => by cases h; exact absurd rfl hst
  | none :: _, _, _, _, h => by cases h
  | some d :: ds, names, s, s', h => by
    rw [decodeColumns] at h
    obtain ⟨e₀, s₁, hA, h⟩ := bind_eq_ok h
    by_cases h₀ : e₀ = .ok
    · subst h₀
      rw [if_pos rfl] at h
      obtain ⟨i, t, d', e, name, hrun, hd, hn, hdec, he, hs⟩ :=
        exists_of_decodeColumns_eq_status hst ds names.tail s₁ s' h
      refine ⟨i + 1, t, d', e, name, ?_, by rwa [List.getElem?_cons_succ], by rwa [← List.getElem?_tail], hdec,
        he, hs⟩
      rw [List.take_succ_cons, decodeColumns_cons_ok runColumn hA, tail_take_succ, hrun]
    · rw [if_neg h₀] at h
      cases hn : names.head? with
      | none => rw [hn] at h; cases h
      | some name =>
        rw [hn] at h
        cases h
        exact ⟨0, s, d, e₀, name, rfl, List.getElem?_cons_zero, by rwa [← List.head?_eq_getElem?], hA, h₀, rfl⟩

theorem decodeColumns_eq_status {status : Status} (hst : status ≠ .ok) :
    ∀ (ds : List (Option FeatureDecoder)) (names : List String) (s s' : Machine),
      decodeColumns runColumn offset ds names s = .ok status s' ↔
        ∃ i t d e name, decodeColumns runColumn offset (ds.take i) (names.take i) s = .ok .ok t ∧
          ds[i]? = some (some d) ∧ names[i]? = some name ∧
          d.decode runColumn offset t = .ok e s' ∧ e ≠ .ok ∧ status = .featureDecode name e := by
  refine fun ds names s s' => ⟨exists_of_decodeColumns_eq_status runColumn hst ds names s s', ?_⟩
  rintro ⟨i, t, d, e, name, hrun, hd, hn, hdec, he, rfl⟩
  obtain ⟨hi, hdi⟩ := List.getElem?_eq_some_iff.mp hd
  obtain ⟨hj, hnj⟩ := List.getElem?_eq_some_iff.mp hn
  rw [decodeColumns_of_take_ok runColumn i ds names s t hrun, List.drop_eq_getElem_cons hi,
    List.drop_eq_getElem_cons hj, hdi, hnj]
  exact decodeColumns_cons_status runColumn hdec he

/-- `DecodeFDSDatum` fails fast: it returns a status other than OK exactly when
the plan entries before some column `i` all return OK and the entry at `i`
returns a status `e` other than OK. It then returns
`FeatureDecodeError(feature_names_[i], e)` in the state that entry left: no
later entry runs, and the stream stays where the entry stopped. -/
theorem decodeFDSDatum_eq_featureDecode {status : Status} (hst : status ≠ .ok) (st : FDSDecoder) (s s' : Machine) :
    decodeFDSDatum runColumn st offset s = .ok status s' ↔
      ∃ i t d e name, decodeColumns runColumn offset (st.decoders.take i) (st.featureNames.take i) s = .ok .ok t ∧
        st.decoders[i]? = some (some d) ∧ st.featureNames[i]? = some name ∧
        d.decode runColumn offset t = .ok e s' ∧ e ≠ .ok ∧ status = .featureDecode name e :=
  decodeColumns_eq_status runColumn hst st.decoders st.featureNames s s'

end Loop

/-- A null in a nullable column after an unused one: the opaque decoder reads
the long, the union column reads branch `0`, not its carrier `1`, and the record
fails under the union column's name. -/
theorem decodeFDSDatum_null_second :
    let m : Metadata := ⟨.dense, "a", .int32, [], 0, 0, 0, by decide⟩
    let schema : ValidSchema := ⟨.record "r" [("x", .long), ("a", .union [.null, .int])], rfl⟩
    ∃ st, initializeSchema schema (FDSDecoder.new [m] [] []) = .ok () st ∧
      decodeFDSDatum (fun _ _ _ => pure .ok) st 0
          ⟨[.long 7, .long 0], [], ⟨[], [], [], [], [], [], [], []⟩, st.skippedData⟩ =
        .ok (.featureDecode "a" .nullValue) ⟨[], [], ⟨[], [], [], [], [], [], [], []⟩, [⟨.long, .long 7⟩]⟩ := by
  dsimp only
  obtain ⟨st, h⟩ : ∃ st, initializeSchema ⟨.record "r" [("x", .long), ("a", .union [.null, .int])], rfl⟩
      (FDSDecoder.new [⟨.dense, "a", .int32, [], 0, 0, 0, by decide⟩] [] []) = .ok () st := by exact ⟨_, rfl⟩
  refine ⟨st, h, ?_⟩
  cases h
  refine (@decodeFDSDatum_eq_featureDecode (fun _ _ _ => pure .ok) 0 (.featureDecode "a" .nullValue) nofun _ _ _).mpr
    ⟨1, ⟨[.long 0], [], ⟨[], [], [], [], [], [], [], []⟩, [⟨.long, .long 7⟩]⟩,
      .nullable (.column .int ⟨.dense, "a", .int32, [], 0, 0, 0, by decide⟩) 1, .nullValue, "a", rfl, rfl, rfl, rfl,
      nofun, rfl⟩

/-- The slot of the skipped data a column writes: the datum index of an opaque
column. -/
def Column.slot (c : Column) : Option Nat :=
  match c.decoder with
  | some (.opaqueContextual j) => some j
  | _ => none

theorem Column.slot_eq_some {c : Column} {j : Nat} : c.slot = some j ↔ c.decoder = some (.opaqueContextual j) := by
  unfold Column.slot
  split <;> simp_all

/-- The skipped data after a run over `cols` returns OK: each opaque column's
value in its slot, under the slot's node in `K`. -/
def fillSkipped (K : List Node) (cols : List Column) (l : List GenericDatum) : List GenericDatum :=
  cols.foldl (fun l c => c.slot.elim l fun j => l.set j ⟨K[j]?.getD .null, c.value⟩) l

section Fill

variable {runColumn : Node → Metadata → Nat → DecodeM Status} {offset : Nat} {K : List Node} {rest : List Token}

theorem runColumns_eq_ok : ∀ (cols : List Column) (s s' : Machine), (∀ c ∈ cols, c.Reads runColumn K) →
    s.input = wire cols ++ rest → s.skippedData.map (·.node) = K →
    runColumns runColumn offset cols s = .ok .ok s' →
    s'.input = rest ∧ s'.skippedData = fillSkipped K cols s.skippedData
  | [], s, s', _, hs, _, h => by
    cases h
    exact ⟨hs, rfl⟩
  | ⟨dec, name, v⟩ :: cols, s, s', hr, hs, hK, h => by
    have hc := hr _ (List.mem_cons_self _ _)
    rw [wire_cons, List.append_assoc] at hs
    simp only [runColumns, List.map_cons] at h
    cases dec with
    | none => exact hc.elim
    | some d =>
      obtain ⟨s₁, hA, h₁⟩ := decodeColumns_cons_eq_ok runColumn h
      cases d
      case opaqueContextual j =>
        obtain ⟨node, hj, hv⟩ := hc
        obtain ⟨g, hg, rfl⟩ : ∃ g, s.skippedData[j]? = some g ∧ g.node = node := by
          have := congrArg (·[j]?) hK
          simp only [List.getElem?_map, hj] at this
          exact Option.map_eq_some'.mp this
        obtain rfl := (EStateM.Result.ok.inj (hA.symm.trans (decodeSkipped_run hg hv _ hs))).2
        obtain ⟨hin, hsk⟩ := runColumns_eq_ok cols _ s' (fun c hc' => hr c (List.mem_cons_of_mem _ hc')) rfl
          ((map_node_set hg v).trans hK) h₁
        refine ⟨hin, hsk.trans ?_⟩
        show _ = fillSkipped K cols (s.skippedData.set j ⟨K[j]?.getD .null, v⟩)
        rw [hj]
        rfl
      all_goals
        obtain ⟨hin₁, hsk₁⟩ := (hc offset s s _ _ hs hs rfl rfl).2 s₁ hA
        obtain ⟨hin, hsk⟩ := runColumns_eq_ok cols s₁ s' (fun c hc' => hr c (List.mem_cons_of_mem _ hc')) hin₁
          (hsk₁ ▸ hK) h₁
        exact ⟨hin, hsk.trans (by rw [hsk₁]; rfl)⟩

theorem getLast?_filter_eq_of_unique {α : Type} {l : List α} {P : α → Bool} {a : α} (ha : a ∈ l) (hPa : P a = true)
    (huniq : ∀ b ∈ l, P b = true → b = a) : (l.filter P).getLast? = some a := by
  obtain ⟨b, hb⟩ := Option.isSome_iff_exists.mp
    (List.getLast?_isSome.mpr (List.ne_nil_of_mem (List.mem_filter.mpr ⟨ha, hPa⟩)))
  obtain ⟨hbl, hPb⟩ := List.mem_filter.mp (List.mem_of_getLast?_eq_some hb)
  rw [hb, huniq b hbl hPb]

end Fill

theorem getLast?_filter_slot_fresh {dense sparse varlen : List Metadata} {schema : ValidSchema} {st : FDSDecoder}
    (h : initializeSchema schema (FDSDecoder.new dense sparse varlen) = .ok () st) {ds : List Datum} {p j : Nat}
    {c : Column} (hp : (unusedColumns schema (dense ++ sparse ++ varlen))[j]? = some p)
    (hcol : (columns st ds)[p]? = some c) :
    ((columns st ds).filter fun c => c.slot = some j).getLast? = some c := by
  have hdec := (getElem?_decoders_fresh h p j).mpr hp
  refine getLast?_filter_eq_of_unique (List.mem_iff_getElem?.mpr ⟨p, hcol⟩) ?_ fun b hb hbj => ?_
  · have hcd := (getElem?_columns_eq_some.mp hcol).1
    rw [hdec] at hcd
    simp [Column.slot_eq_some, Option.some.inj hcd]
  · obtain ⟨q, hq⟩ := List.mem_iff_getElem?.mp hb
    have hbd := (getElem?_columns_eq_some.mp hq).1
    rw [Column.slot_eq_some.mp (of_decide_eq_true hbj)] at hbd
    obtain rfl : q = p := Option.some.inj (((getElem?_decoders_fresh h q j).mp hbd).symm.trans hp)
    exact Option.some.inj (hq.symm.trans hcol)

/-- On a fresh plan, with column decoders that each read exactly their own
field, a call of `DecodeFDSDatum` on the encoding of a record that returns OK
has read the record to its end and leaves in the skipped data exactly the
record's values of its unused columns, in schema order, each under its
column's node. -/
theorem decodeFDSDatum_skipped_values {runColumn : Node → Metadata → Nat → DecodeM Status}
    (hread : ReadsOwnField runColumn) {dense sparse varlen : List Metadata} {schema : ValidSchema}
    {st : FDSDecoder} {name : String} {fields : List (String × Node)} {ds : List Datum}
    (h : initializeSchema schema (FDSDecoder.new dense sparse varlen) = .ok () st)
    (hS : schema.root = .record name fields) (hr : schema.root.conforms (.record ds) = true)
    {offset : Nat} {s s' : Machine} {rest : List Token} (hs : s.input = encode (.record ds) ++ rest)
    (hK : s.skippedData.map (·.node) = st.skippedData.map (·.node))
    (hok : decodeFDSDatum runColumn st offset s = .ok .ok s') :
    s'.input = rest ∧ s'.skippedData = (unusedColumns schema (dense ++ sparse ++ varlen)).map
      fun p => ⟨schema.root.leafAt p, ds.getD p .null⟩ := by
  rw [hS] at hr
  have hlen := (conformsFields_getElem hr).1
  obtain ⟨hl₁, hl₂⟩ := length_plan_fresh h
  rw [hS, Node.leaves_record, hlen] at hl₁ hl₂
  rw [decodeFDSDatum_eq_runColumns runColumn hl₁ hl₂] at hok
  rw [← wire_columns hl₁ hl₂] at hs
  obtain ⟨hin, hsk⟩ := runColumns_eq_ok _ s s' (reads_columns_fresh hread h hS hr) hs hK hok
  refine ⟨hin, hsk.trans (List.ext_getElem? fun j => ?_)⟩
  have hKlen : s.skippedData.length = (unusedColumns schema (dense ++ sparse ++ varlen)).length := by
    rw [← List.length_map s.skippedData (·.node), hK, List.length_map, skippedData_fresh h, List.length_map]
    rfl
  rw [fillSkipped, getElem?_foldl_set]
  cases hp : (unusedColumns schema (dense ++ sparse ++ varlen))[j]? with
  | none =>
    have hnone : s.skippedData[j]? = none := List.getElem?_eq_none (hKlen ▸ List.getElem?_eq_none_iff.mp hp)
    rw [hnone, Option.map_none', List.getElem?_map, hp, Option.map_none']
  | some p =>
    have hj : j < s.skippedData.length := hKlen ▸ (List.getElem?_eq_some_iff.mp hp).1
    have hdec : st.decoders[p]? = some (some (.opaqueContextual j)) := (getElem?_decoders_fresh h p j).mpr hp
    have hpd : p < ds.length := hl₁ ▸ (List.getElem?_eq_some_iff.mp hdec).1
    obtain ⟨c, hcol⟩ : ∃ c, (columns st ds)[p]? = some c :=
      ⟨_, List.getElem?_eq_getElem (by simp [columns, hl₁, hl₂, hpd])⟩
    have hnode : (st.skippedData.map (·.node))[j]? = some (schema.root.leafAt p) := by
      rw [List.getElem?_map, getElem?_skippedData_fresh h hdec]
      rfl
    rw [List.getElem?_eq_getElem hj, getLast?_filter_slot_fresh h hp hcol, hnode, List.getElem?_map, hp]
    simp [List.getD_eq_getElem?_getD, (getElem?_columns_eq_some.mp hcol).2.2]

/-- A record with an unused `long` before a declared `int`: read by the generic
column decoder, it leaves the long in the skipped data. -/
theorem decodeFDSDatum_skipped_values_front :
    let m : Metadata := ⟨.dense, "a", .int32, [], 0, 0, 0, by decide⟩
    let schema : ValidSchema := ⟨.record "r" [("x", .long), ("a", .int)], rfl⟩
    ∃ st s', initializeSchema schema (FDSDecoder.new [m] [] []) = .ok () st ∧
      decodeFDSDatum genericColumn st 0 ⟨encode (.record [.long 7, .int 5]), [], ⟨[], [], [], [], [], [], [], []⟩,
        st.skippedData⟩ = .ok .ok s' ∧
      s'.skippedData = [⟨.long, .long 7⟩] := by
  dsimp only
  obtain ⟨st, h⟩ : ∃ st, initializeSchema ⟨.record "r" [("x", .long), ("a", .int)], rfl⟩
      (FDSDecoder.new [⟨.dense, "a", .int32, [], 0, 0, 0, by decide⟩] [] []) = .ok () st := by exact ⟨_, rfl⟩
  obtain ⟨s', hok⟩ : ∃ s', decodeFDSDatum genericColumn st 0 ⟨encode (.record [.long 7, .int 5]), [],
      ⟨[], [], [], [], [], [], [], []⟩, st.skippedData⟩ = .ok .ok s' := by
    cases h; exact ⟨_, rfl⟩
  refine ⟨st, s', h, hok, ?_⟩
  rw [(@decodeFDSDatum_skipped_values genericColumn readsOwnField_genericColumn _ _ _ _ _ "r"
    [("x", .long), ("a", .int)] [.long 7, .int 5] h rfl rfl 0 _ s' [] (List.append_nil _).symm rfl hok).2]
  rfl

end AvroFds.Fds
