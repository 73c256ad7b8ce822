import Mathlib

/-!
The Avro schema tree an `FDSDecoder` binds against (`avro::Node` behind an
`avro::ValidSchema`), restricted to the constructs of an FDS schema, and the
value `avro::GenericDatum` holds for a column that no feature claims.
-/

namespace AvroFds.Schema

/-- `avro::Type` of the constructs an FDS schema may use. -/
inductive AvroType where
  | null | bool | int | long | float | double | string | bytes | array | union | record
  deriving Repr, DecidableEq

inductive Node where
  | null | bool | int | long | float | double | string | bytes
  | array (items : Node)
  | union (branches : List Node)
  | record (name : String) (fields : List (String × Node))
  deriving Repr

namespace Node

def type : Node → AvroType
  | null => .null
  | bool => .bool
  | int => .int
  | long => .long
  | float => .float
  | double => .double
  | string => .string
  | bytes => .bytes
  | array _ => .array
  | union _ => .union
  | record _ _ => .record

def leafList : Node → List Node
  | array items => [items]
  | union branches => branches
  | record _ fields => fields.map Prod.snd
  | _ => []

def leaves (n : Node) : Nat := n.leafList.length

/-- `leafAt(i)`; avro throws past the last leaf, which no modelled call reaches. -/
def leafAt (n : Node) (i : Nat) : Node := n.leafList.getD i .null

/-- Only named types (here records) have a name. -/
def hasName : Node → Bool
  | record _ _ => true
  | _ => false

def name : Node → String
  | record name _ => name
  | _ => ""

def fieldNames : Node → List String
  | record _ fields => fields.map Prod.fst
  | _ => []

/-- `nameIndex(name, pos)` of a record: the position of its field `name`. -/
def nameIndex (n : Node) (field : String) : Option Nat := n.fieldNames.findIdx? (· = field)

/-- Every record of the tree names its fields without repetition, as
`avro::compileJsonSchema` enforces. -/
def valid : Node → Bool
  | array items => items.valid
  | union branches => validAll branches
  | record _ fields => decide (fields.map Prod.fst).Nodup && validFields fields
  | _ => true
where
  validAll : List Node → Bool
    | [] => true
    | b :: bs => b.valid && validAll bs
  validFields : List (String × Node) → Bool
    | [] => true
    | (_, f) :: fs => f.valid && validFields fs

@[simp] theorem leaves_record (name : String) (fields : List (String × Node)) :
    (record name fields).leaves = fields.length := by
  simp [leaves, leafList]

@[simp] theorem leafAt_record (name : String) (fields : List (String × Node)) (i : Nat) :
    (record name fields).leafAt i = (fields.map Prod.snd).getD i .null := rfl

@[simp] theorem leaves_union (branches : List Node) : (union branches).leaves = branches.length := rfl

@[simp] theorem leafAt_union (branches : List Node) (i : Nat) :
    (union branches).leafAt i = branches.getD i .null := rfl

theorem nameIndex_record (name field : String) (fields : List (String × Node)) :
    (record name fields).nameIndex field = (fields.map Prod.fst).findIdx? (· = field) := rfl

theorem nameIndex_eq_some_iff {n : Node} (hnd : n.fieldNames.Nodup) {field : String} {p : Nat} :
    n.nameIndex field = some p ↔ n.fieldNames[p]? = some field := by
  rw [nameIndex, List.findIdx?_eq_some_iff_getElem]
  constructor
  · rintro ⟨hp, h, -⟩
    rw [List.getElem?_eq_getElem hp, of_decide_eq_true h]
  · intro h
    obtain ⟨hp, hfp⟩ := List.getElem?_eq_some_iff.mp h
    refine ⟨hp, decide_eq_true hfp, fun j hj hfj => ?_⟩
    have := (hnd.getElem_inj_iff).mp ((of_decide_eq_true hfj).trans hfp.symm)
    omega

theorem length_fieldNames_le (n : Node) : n.fieldNames.length ≤ n.leaves := by
  cases n <;> simp [fieldNames, leaves, leafList]

theorem lt_leaves_of_nameIndex {n : Node} {field : String} {p : Nat} (h : n.nameIndex field = some p) :
    p < n.leaves :=
  Nat.lt_of_lt_of_le (List.findIdx?_eq_some_iff_getElem.mp h).1 n.length_fieldNames_le

theorem leafAt_record_of_getElem? {name : String} {fields : List (String × Node)} {p : Nat} {f : String × Node}
    (h : fields[p]? = some f) : (record name fields).leafAt p = f.2 := by
  simp [List.getD_eq_getElem?_getD, List.getElem?_map, h]

theorem nameIndex_of_sublist (name name' : String) {x : String} {fields fields' : List (String × Node)} {p : Nat}
    (hsub : fields.Sublist fields') (hnd : (fields'.map Prod.fst).Nodup)
    (hp : (record name fields).nameIndex x = some p) :
    ∃ q, (record name' fields').nameIndex x = some q ∧ (record name' fields').leafAt q = (record name fields).leafAt p := by
  rw [nameIndex_eq_some_iff (n := record name fields) (hnd.sublist (hsub.map _))] at hp
  obtain ⟨f, hf, rfl⟩ : ∃ f, fields[p]? = some f ∧ f.1 = x := by
    simpa [fieldNames, List.getElem?_map] using hp
  obtain ⟨q, hq⟩ := List.mem_iff_getElem?.mp (hsub.subset (List.getElem?_mem hf))
  refine ⟨q, (nameIndex_eq_some_iff (n := record name' fields') hnd).mpr (by simp [fieldNames, List.getElem?_map, hq]), ?_⟩
  rw [leafAt_record_of_getElem? hq, leafAt_record_of_getElem? hf]

end Node

/-- `avro::ValidSchema`. -/
structure ValidSchema where
  root : Node
  valid : root.valid = true

theorem ValidSchema.fieldNames_nodup (s : ValidSchema) : s.root.fieldNames.Nodup := by
  have h := s.valid
  cases hr : s.root with
  | record name fields =>
    rw [hr] at h
    simp only [Node.valid, Bool.and_eq_true, decide_eq_true_eq] at h
    exact h.1
  | _ => exact List.nodup_nil

theorem ValidSchema.nameIndex_of_getElem? {s : ValidSchema} {name : String} {fields : List (String × Node)}
    {p : Nat} {f : String × Node} (hS : s.root = .record name fields) (hp : fields[p]? = some f) :
    s.root.nameIndex f.1 = some p := by
  rw [Node.nameIndex_eq_some_iff s.fieldNames_nodup, hS]
  simp [Node.fieldNames, List.getElem?_map, hp]

/-- The null schema a default-constructed `avro::ValidSchema` holds. -/
def ValidSchema.null : ValidSchema := ⟨.null, rfl⟩

/-- The value of an `avro::GenericDatum`. -/
inductive Datum where
  | null
  | bool (b : Bool)
  | int (x : BitVec 32)
  | long (x : Int)
  | float (bits : BitVec 32)
  | double (bits : BitVec 64)
  | string (s : List UInt8)
  | bytes (bs : List UInt8)
  | array (items : List Datum)
  | union (branch : Nat) (value : Datum)
  | record (fields : List Datum)
  deriving Repr

/-- The datum is a value of the schema node. -/
def Node.conforms : Node → Datum → Bool
  | .null, d => (d matches .null)
  | .bool, d => (d matches .bool _)
  | .int, d => (d matches .int _)
  | .long, d => (d matches .long _)
  | .float, d => (d matches .float _)
  | .double, d => (d matches .double _)
  | .string, d => (d matches .string _)
  | .bytes, d => (d matches .bytes _)
  | .array items, d =>
    match d with
    | .array ds => ds.all items.conforms
    | _ => false
  | .union branches, d =>
    match d with
    | .union k v => conformsBranch branches k v
    | _ => false
  | .record _ fields, d =>
    match d with
    | .record ds => conformsFields fields ds
    | _ => false
where
  conformsBranch : List Node → Nat → Datum → Bool
    | [], _, _ => false
    | b :: _, 0, d => b.conforms d
    | _ :: bs, k + 1, d => conformsBranch bs k d
  conformsFields : List (String × Node) → List Datum → Bool
    | [], [] => true
    | (_, f) :: fs, d :: ds => f.conforms d && conformsFields fs ds
    | _, _ => false

theorem conformsFields_getElem : ∀ {fields : List (String × Node)} {ds : List Datum},
    Node.conforms.conformsFields fields ds = true → fields.length = ds.length ∧
      ∀ p (h₁ : p < fields.length) (h₂ : p < ds.length), fields[p].2.conforms ds[p] = true
  | [], [], _ => ⟨rfl, fun _ h => absurd h (Nat.not_lt_zero _)⟩
  | (_, f) :: fs, d :: ds, h => by
    simp only [Node.conforms.conformsFields, Bool.and_eq_true] at h
    have ih := @conformsFields_getElem fs ds h.2
    refine ⟨congrArg (· + 1) ih.1, fun p h₁ h₂ => ?_⟩
    cases p with
    | zero => exact h.1
    | succ p => exact ih.2 p (Nat.lt_of_succ_lt_succ h₁) (Nat.lt_of_succ_lt_succ h₂)

theorem conformsBranch_getD : ∀ {bs : List Node} {k : Nat} {d : Datum},
    Node.conforms.conformsBranch bs k d = true → (bs.getD k .null).conforms d = true
  | _ :: _, 0, _, h => h
  | _ :: bs, k + 1, _, h => @conformsBranch_getD bs k _ h

/-- The value `GenericDatum(schema)` starts with. -/
def Node.defaultDatum : Node → Datum
  | .null => .null
  | .bool => .bool false
  | .int => .int 0
  | .long => .long 0
  | .float => .float 0
  | .double => .double 0
  | .string => .string []
  | .bytes => .bytes []
  | .array _ => .array []
  | .union [] => .union 0 .null
  | .union (b :: _) => .union 0 b.defaultDatum
  | .record _ fields => .record (defaults fields)
where
  defaults : List (String × Node) → List Datum
    | [] => []
    | (_, f) :: fs => f.defaultDatum :: defaults fs

/-- `avro::GenericDatum`: a value together with the schema node it is read by. -/
structure GenericDatum where
  node : Node
  value : Datum

/-- `GenericDatum(const NodePtr& schema)`. -/
def GenericDatum.ofNode (n : Node) : GenericDatum := ⟨n, n.defaultDatum⟩

end AvroFds.Schema
