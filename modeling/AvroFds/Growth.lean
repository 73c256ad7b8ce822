import AvroFds.InternalDecoder

/-!
What the internal decoders of a sparse column do on any stream, well formed or
not, and whether they return or throw: `ValuesDecoder<T>` only appends to its
own values vector and returns how many values it appended, `IndicesDecoder<T>`
only grows and overwrites its own indices vector, and the `string`
specialisation of `DecodeVarLenValues` does what the generic template does, but
for the string it has pushed when a string fails to decode.
-/

namespace AvroFds.Sparse

open Schema Wire Buffer

/-- `s'` is `s` with the stream moved and `xs` appended to values vector
`valuesIndex` of `T`, and nothing else changed. -/
def Appended (T : DataType) (valuesIndex : Nat) (s s' : Machine) (xs : List T.Val) : Prop :=
  ∃ rest, s' = mapValues T valuesIndex (· ++ xs) { s with input := rest }

section Appended

variable {T : DataType} {valuesIndex : Nat}

theorem Appended.refl (s : Machine) (rest : List Token) : Appended T valuesIndex s { s with input := rest } [] :=
  ⟨rest, (mapValues_append_nil T valuesIndex _).symm⟩

theorem Appended.self (s : Machine) : Appended T valuesIndex s s [] := by
  simpa only [Machine.with_input_eq rfl] using (Appended.refl s s.input : Appended T valuesIndex s _ [])

theorem Appended.trans {s s₁ s₂ : Machine} {xs ys : List T.Val} (h₁ : Appended T valuesIndex s s₁ xs)
    (h₂ : Appended T valuesIndex s₁ s₂ ys) : Appended T valuesIndex s s₂ (xs ++ ys) := by
  obtain ⟨r₁, rfl⟩ := h₁
  obtain ⟨r₂, rfl⟩ := h₂
  refine ⟨r₂, (mapValues_mapValues T valuesIndex (· ++ ys) (· ++ xs) { s with input := r₂ }).trans ?_⟩
  congr 1
  funext v
  exact List.append_assoc v xs ys

theorem pushValues_appended : ∀ (m : Nat) (s : Machine), ∃ xs : List T.Val,
    Appended T valuesIndex s (leftState (pushValues T valuesIndex m s)) xs ∧
      ∀ s', pushValues T valuesIndex m s = .ok () s' → xs.length = m
  | 0, s => ⟨[], Appended.self s, fun _ _ => rfl⟩
  | m + 1, s => by
    rcases read_cases T.decode s with ⟨x, rest, hr⟩ | ⟨e, hr⟩
    · obtain ⟨xs, hxs, hlen⟩ := pushValues_appended m (pushValue T valuesIndex x { s with input := rest })
      rw [pushValues, bind_ok hr, bind_ok (modify_run _ _)]
      exact ⟨x :: xs, Appended.trans (⟨rest, rfl⟩ : Appended T valuesIndex s _ [x]) hxs,
        fun s' h => congrArg Nat.succ (hlen s' h)⟩
    · rw [pushValues, bind_error hr]
      exact ⟨[], Appended.self s, fun _ h => by cases h⟩

theorem pushStrings_appended : ∀ (m : Nat) (s : Machine), ∃ xs : List DataType.string.Val,
    Appended .string valuesIndex s (leftState (pushStrings valuesIndex m s)) xs ∧
      ∀ s', pushStrings valuesIndex m s = .ok () s' → xs.length = m
  | 0, s => ⟨[], Appended.self s, fun _ _ => rfl⟩
  | m + 1, s => by
    rw [pushStrings, bind_ok (modify_run _ _)]
    rcases decodeStringBack_pushValue valuesIndex s with ⟨x, rest, -, h⟩ | ⟨len, bs, rest, -, h⟩ | ⟨e, -, -, h⟩
    · obtain ⟨xs, hxs, hlen⟩ := pushStrings_appended m (pushValue .string valuesIndex x { s with input := rest })
      rw [bind_ok h]
      exact ⟨x :: xs, Appended.trans (⟨rest, rfl⟩ : Appended .string valuesIndex s _ [x]) hxs,
        fun s' h => congrArg Nat.succ (hlen s' h)⟩
    · rw [bind_error h]
      exact ⟨[cutString len bs], ⟨rest, rfl⟩, fun _ h => by cases h⟩
    · rw [bind_error h]
      exact ⟨[[]], ⟨s.input, by rw [Machine.with_input_eq rfl]; rfl⟩, fun _ h => by cases h⟩

theorem varLenBlocks_appended {items : Nat → DecodeM Unit}
    (hitems : ∀ m s, ∃ xs : List T.Val, Appended T valuesIndex s (leftState (items m s)) xs ∧
      ∀ s', items m s = .ok () s' → xs.length = m) :
    ∀ (fuel count : Nat) (s : Machine), count < 2 ^ 64 → ∃ xs : List T.Val,
      Appended T valuesIndex s (leftState (varLenBlocks items fuel count s)) xs ∧
        ∀ n s', varLenBlocks items fuel count s = .ok n s' → n = (count + xs.length) % 2 ^ 64
  | 0, _, s, _ => ⟨[], Appended.self s, fun _ _ h => by cases h⟩
  | fuel + 1, count, s, hc => by
    rcases read_cases decodeItemCount s with ⟨m, rest, hr⟩ | ⟨e, hr⟩
    · by_cases hm : m = 0
      · rw [varLenBlocks, bind_ok hr, if_pos hm]
        exact ⟨[], Appended.refl s rest, fun n s' h => by cases h; exact (Nat.mod_eq_of_lt hc).symm⟩
      · obtain ⟨xs, hxs, hlen⟩ := hitems m { s with input := rest }
        rw [varLenBlocks, bind_ok hr, if_neg hm]
        cases hA : items m { s with input := rest } with
        | error e s₁ =>
          rw [hA] at hxs
          rw [bind_error hA]
          exact ⟨xs, (Appended.refl s rest).trans hxs, fun _ _ h => by cases h⟩
        | ok u s₁ =>
          rw [hA] at hxs
          rw [bind_ok hA]
          obtain ⟨ys, hys, hn⟩ := varLenBlocks_appended hitems fuel (wrap (count + m)) s₁ (Nat.mod_lt _ (by norm_num))
          refine ⟨xs ++ ys, (Appended.refl s rest).trans (hxs.trans hys), fun n s' h => ?_⟩
          rw [hn n s' h, wrap, Nat.mod_add_mod, List.length_append, hlen s₁ hA, Nat.add_assoc]
    · rw [varLenBlocks, bind_error hr]
      exact ⟨[], Appended.self s, fun _ _ h => by cases h⟩

theorem decodeVarLen_appended (T : DataType) (valuesIndex : Nat) (s : Machine) : ∃ xs : List T.Val,
    Appended T valuesIndex s (leftState (decodeVarLen T valuesIndex s)) xs ∧
      ∀ n s', decodeVarLen T valuesIndex s = .ok n s' → n = xs.length % 2 ^ 64 := by
  have hstrings := varLenBlocks_appended (@pushStrings_appended valuesIndex) s.input.length 0 s (by norm_num)
  have hvalues (T : DataType) :=
    varLenBlocks_appended (@pushValues_appended T valuesIndex) s.input.length 0 s (by norm_num)
  simp only [Nat.zero_add] at hstrings hvalues
  cases T
  case string => exact hstrings
  all_goals exact hvalues _

/-- Whatever the stream, well formed or not, and whether it returns or throws,
`ValuesDecoder<T>(values_index)::Decode` (either `DecodeVarLenValues`) changes
nothing but the stream and values vector `values_index` of `T`, to which it only
appends; when it returns, it returns the number of values it appended, modulo
`2^64`. -/
theorem valuesDecoder_decode_appends (T : DataType) (valuesIndex dim indicesStart : Nat) (s : Machine) :
    ∃ xs : List T.Val,
      Appended T valuesIndex s (leftState ((InternalDecoder.values T valuesIndex).decode dim indicesStart s)) xs ∧
        ∀ n s', (InternalDecoder.values T valuesIndex).decode dim indicesStart s = .ok n s' →
          n = xs.length % 2 ^ 64 := by
  rw [InternalDecoder.decode, bind_ok (get_run _)]
  split
  · exact decodeVarLen_appended T valuesIndex s
  · exact ⟨[], Appended.self s, fun _ _ h => by cases h⟩

end Appended

/-- `s'` is `s` with the stream moved and indices vector `indicesIndex`
rewritten by a function that never shortens it, and nothing else changed. -/
def Grown (indicesIndex : Nat) (s s' : Machine) : Prop :=
  ∃ f : List Int → List Int, (∀ v, v.length ≤ (f v).length) ∧
    ∃ rest, s' = mapIndices indicesIndex f { s with input := rest }

section Grown

variable {indicesIndex : Nat}

theorem Grown.refl (s : Machine) (rest : List Token) : Grown indicesIndex s { s with input := rest } :=
  ⟨id, fun _ => le_rfl, rest, (mapIndices_id _ _).symm⟩

theorem Grown.self (s : Machine) : Grown indicesIndex s s := by
  simpa only [Machine.with_input_eq rfl] using (Grown.refl s s.input : Grown indicesIndex s _)

theorem Grown.trans {s s₁ s₂ : Machine} (h₁ : Grown indicesIndex s s₁) (h₂ : Grown indicesIndex s₁ s₂) :
    Grown indicesIndex s s₂ := by
  obtain ⟨f, hf, r₁, rfl⟩ := h₁
  obtain ⟨g, hg, r₂, rfl⟩ := h₂
  exact ⟨g ∘ f, fun v => (hf v).trans (hg _), r₂, mapIndices_mapIndices indicesIndex g f { s with input := r₂ }⟩

theorem Grown.bind {x : DecodeM α} {f : α → DecodeM β} {s : Machine}
    (hx : Grown indicesIndex s (leftState (x s)))
    (hf : ∀ a s₁, x s = .ok a s₁ → Grown indicesIndex s₁ (leftState (f a s₁))) :
    Grown indicesIndex s (leftState ((x >>= f) s)) := by
  cases h : x s with
  | ok a s₁ =>
    rw [h] at hx
    rw [bind_ok h]
    exact hx.trans (hf a s₁ h)
  | error e s₁ =>
    rw [h] at hx
    rwa [bind_error h]

theorem writeIndices_grown (readIndex : Reader Int) (r1 end_ : Nat) :
    ∀ (fuel i : Nat) (s : Machine),
      Grown indicesIndex s (leftState (writeIndices readIndex indicesIndex r1 end_ fuel i s))
  | 0, i, s => by
    unfold writeIndices
    split <;> exact Grown.self s
  | fuel + 1, i, s => by
    unfold writeIndices
    split
    · rcases read_cases readIndex s with ⟨x, rest, hr⟩ | ⟨e, hr⟩
      · rw [bind_ok hr, bind_ok (modify_run _ _)]
        exact Grown.trans (⟨(·.set i x), fun v => (List.length_set v i x).ge, rest, rfl⟩ : Grown indicesIndex s _)
          (writeIndices_grown readIndex r1 end_ fuel _ _)
      · rw [bind_error hr]
        exact Grown.self s
    · exact Grown.self s

theorem resizeIndices_grown (end_ : Nat) (s : Machine) :
    Grown indicesIndex s (leftState (resizeIndices indicesIndex end_ s)) := by
  rw [resizeIndices, bind_ok (get_run _)]
  split
  · split
    · exact ⟨(grow · end_), fun v => by rw [length_grow]; exact le_max_left _ _, s.input,
        by rw [Machine.with_input_eq rfl]; rfl⟩
    · exact Grown.self s
  · exact Grown.self s

theorem indicesBlocks_grown (readIndex : Reader Int) (r1 d1 : Nat) :
    ∀ (fuel count start : Nat) (s : Machine),
      Grown indicesIndex s (leftState (indicesBlocks readIndex indicesIndex r1 d1 fuel count start s))
  | 0, _, _, s => Grown.self s
  | fuel + 1, count, start, s => by
    rcases read_cases decodeItemCount s with ⟨m, rest, hr⟩ | ⟨e, hr⟩
    · rw [indicesBlocks, bind_ok hr]
      split
      · exact Grown.refl s rest
      · refine (Grown.refl s rest).trans (Grown.bind (resizeIndices_grown _ _) fun _ s₁ _ => ?_)
        rw [bind_ok (get_run _)]
        exact Grown.bind (writeIndices_grown readIndex r1 _ _ _ _) fun _ s₂ _ =>
          indicesBlocks_grown readIndex r1 d1 fuel _ _ s₂
    · rw [indicesBlocks, bind_error hr]
      exact Grown.self s

/-- Whatever the stream, well formed or not, and whether it returns or throws,
`IndicesDecoder<T>(indices_index, rank)::Decode` changes nothing but the stream
and indices vector `indices_index`, which it never shortens. -/
theorem indicesDecoder_decode_grows (T : IndexType) (indicesIndex r1 dim indicesStart : Nat) (s : Machine) :
    Grown indicesIndex s (leftState ((InternalDecoder.indices T indicesIndex r1).decode dim indicesStart s)) := by
  rw [InternalDecoder.decode, bind_ok (get_run _)]
  split
  · exact indicesBlocks_grown T.read r1 _ _ 0 indicesStart s
  · exact Grown.self s

end Grown

/-- Two runs alike, but for the string the `string` specialisation has pushed
when a string fails to decode: empty when no length could be read, cut short
when the stream ends inside the string. -/
def AgreesBut (valuesIndex : Nat) (r₁ r₂ : EStateM.Result Exception Machine α) : Prop :=
  r₁ = r₂ ∨ ∃ e s', r₂ = .error e s' ∧
    (r₁ = .error e (pushValue .string valuesIndex [] s') ∨
      ∃ len bs rest, s'.input = .cut len bs :: rest ∧
        r₁ = .error e (pushValue .string valuesIndex (cutString len bs) { s' with input := rest }))

theorem AgreesBut.bind {valuesIndex : Nat} {x₁ x₂ : DecodeM α} {f₁ f₂ : α → DecodeM β} {s : Machine}
    (hx : AgreesBut valuesIndex (x₁ s) (x₂ s))
    (hf : ∀ a s₁, x₂ s = .ok a s₁ → AgreesBut valuesIndex (f₁ a s₁) (f₂ a s₁)) :
    AgreesBut valuesIndex ((x₁ >>= f₁) s) ((x₂ >>= f₂) s) := by
  rcases hx with heq | ⟨e, s', h₂, h₁ | ⟨len, bs, rest, hcut, h₁⟩⟩
  · cases h₂ : x₂ s with
    | ok a s₁ =>
      rw [bind_ok (heq.trans h₂), bind_ok h₂]
      exact hf a s₁ h₂
    | error e s₁ =>
      rw [bind_error (heq.trans h₂), bind_error h₂]
      exact .inl rfl
  · rw [bind_error h₁, bind_error h₂]
    exact .inr ⟨e, s', rfl, .inl rfl⟩
  · rw [bind_error h₁, bind_error h₂]
    exact .inr ⟨e, s', rfl, .inr ⟨len, bs, rest, hcut, rfl⟩⟩

theorem pushStrings_agrees (valuesIndex : Nat) : ∀ (m : Nat) (s : Machine),
    AgreesBut valuesIndex (pushStrings valuesIndex m s) (pushValues .string valuesIndex m s)
  | 0, _ => .inl rfl
  | m + 1, s => by
    rw [pushStrings, pushValues, bind_ok (modify_run _ _)]
    rcases decodeStringBack_pushValue valuesIndex s with ⟨x, rest, hx, h⟩ | ⟨len, bs, rest, hcut, h⟩ | ⟨e, he, -, h⟩
    · rw [bind_ok h, bind_ok (read_ok (r := DataType.string.decode) hx), bind_ok (modify_run _ _)]
      exact pushStrings_agrees valuesIndex m _
    · have hr : read DataType.string.decode s = .error .eof s := read_error (by rw [hcut]; rfl)
      rw [bind_error h, bind_error hr]
      exact .inr ⟨.eof, s, rfl, .inr ⟨len, bs, rest, hcut, rfl⟩⟩
    · rw [bind_error h, bind_error (read_error (r := DataType.string.decode) he)]
      exact .inr ⟨e, s, rfl, .inl rfl⟩

theorem varLenBlocks_agrees {valuesIndex : Nat} {items₁ items₂ : Nat → DecodeM Unit}
    (h : ∀ m s, AgreesBut valuesIndex (items₁ m s) (items₂ m s)) :
    ∀ (fuel count : Nat) (s : Machine),
      AgreesBut valuesIndex (varLenBlocks items₁ fuel count s) (varLenBlocks items₂ fuel count s)
  | 0, _, _ => .inl rfl
  | fuel + 1, count, s => by
    rw [varLenBlocks, varLenBlocks]
    refine AgreesBut.bind (.inl rfl) fun m s₁ _ => ?_
    split
    · exact .inl rfl
    · exact AgreesBut.bind (h m s₁) fun _ s₂ _ => varLenBlocks_agrees h fuel _ s₂

/-- On every stream, `DecodeVarLenValues<string>` (`push_back("")`, then
`decodeString(v.back())`) does what the generic template does with
`Decode<string>`: the same count and the same state when either returns, and the
same exception when a string fails to decode, after which the specialisation
leaves one more value at the back of the values vector: the empty string when
no length could be read, or, when the stream ends inside the string, the string
cut short (the bytes the stream held, then zeros up to the length announced). -/
theorem decodeVarLenStrings_agrees (valuesIndex : Nat) (s : Machine) :
    decodeVarLenStrings valuesIndex s = decodeVarLenValues .string valuesIndex s ∨
      ∃ e s', decodeVarLenValues .string valuesIndex s = .error e s' ∧
        (decodeVarLenStrings valuesIndex s = .error e (pushValue .string valuesIndex [] s') ∨
          ∃ len bs rest, s'.input = .cut len bs :: rest ∧
            decodeVarLenStrings valuesIndex s =
              .error e (pushValue .string valuesIndex (cutString len bs) { s' with input := rest })) :=
  varLenBlocks_agrees (pushStrings_agrees valuesIndex) s.input.length 0 s

end AvroFds.Sparse
