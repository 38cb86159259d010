import Tensorplate.Lib.Except
import Tensorplate.Serving.Base64
import Tensorplate.Serving.Model.Serialization

/-!
# The two decoders accept the same requests

A frame is decoded to a request exactly where every window of its document
lies inside its payload and the same document, each window written out in
base64, is decoded to that request. The decoders differ in the signs they
check: what the JSON decoder casts and the other refuses is a word of
`2 ^ 63` or more, and no payload is that long.
-/

namespace Tensorplate

namespace Router

/-- **The integers of the JSON library** are those of its two word types. -/
inductive Document.Ranged : Document → Prop
  | null : Ranged .null
  | bool (b : Bool) : Ranged (.bool b)
  | integer {i : ℤ} (h : -2 ^ 63 ≤ i ∧ i < 2 ^ 64) : Ranged (.integer i)
  | float : Ranged .float
  | string (text : List Char) : Ranged (.string text)
  | array {items : List Document} (h : ∀ d ∈ items, Ranged d) : Ranged (.array items)
  | object {members : List (List Char × Document)} (h : ∀ m ∈ members, Ranged m.2) :
    Ranged (.object members)

namespace Document

theorem Ranged.find {root d : Document} {key : List Char} (h : root.Ranged)
    (hfind : root.find key = some d) : d.Ranged := by
  cases h with
  | object h =>
    obtain ⟨m, hm, rfl⟩ := Option.map_eq_some_iff.1 hfind
    exact h m (List.mem_of_find?_eq_some hm)
  | _ => exact absurd hfind (by simp [Document.find])

theorem Ranged.integerField {root : Document} {key : String} {i : ℤ} (h : root.Ranged)
    (hi : integerField root key = some i) : -2 ^ 63 ≤ i ∧ i < 2 ^ 64 := by
  obtain ⟨d, hd, hint⟩ := Option.bind_eq_some_iff.1 hi
  have hranged := h.find hd
  cases hranged with
  | integer hrange =>
    obtain rfl := Option.some.inj hint
    exact hrange
  | _ => exact absurd hint (by simp [Document.integer?])

end Document

end Router

namespace Serialization

open Buffer Lib Router

/-! ## Words -/

theorem toI64_range (i : ℤ) : -2 ^ 63 ≤ toI64 i ∧ toI64 i < 2 ^ 63 := by
  unfold toI64
  have hlow := Int.le_bmod (x := i) (m := 2 ^ 64) (by decide)
  have hhigh := Int.bmod_lt (x := i) (m := 2 ^ 64) (by decide)
  omega

theorem toSize_of_nonneg {v : ℤ} (h : 0 ≤ v) (hv : v < 2 ^ 63) : toSize v = v.toNat := by
  unfold toSize
  rw [Int.emod_eq_of_lt h (by omega)]

/-- A negative word is cast to a size no buffer has. -/
theorem le_toSize_of_neg {v : ℤ} (h : v < 0) (hv : -2 ^ 63 ≤ v) : 2 ^ 63 ≤ toSize v := by
  unfold toSize
  omega

/-- A signed word is what the document says, or negative. -/
theorem toI64_of_ranged {i : ℤ} (h : -2 ^ 63 ≤ i ∧ i < 2 ^ 64) (hnonneg : 0 ≤ toI64 i) :
    toI64 i = i := by
  unfold toI64 at *
  rw [Int.bmod_def] at *
  split_ifs at * <;> omega

theorem toI64_of_lt {i : ℤ} (h : 0 ≤ i) (hi : i < 2 ^ 63) : toI64 i = i := by
  unfold toI64
  rw [Int.bmod_def]
  split_ifs <;> omega

/-! ## Tensors -/

theorem castWord_eq {t : Document} {field : String} {n : ℕ} (h : nonnegativeWord t field = .ok n) :
    castWord t field = n := by
  unfold nonnegativeWord at h
  unfold castWord
  split at h
  · rename_i hnone
    rw [hnone]
    exact Except.ok.inj h
  · rename_i v hv
    rw [hv]
    split_ifs at h with hneg
    exact Except.ok.inj h

theorem nonnegativeWord_of_lt {t : Document} {field : String} (h : castWord t field < 2 ^ 63) :
    nonnegativeWord t field = .ok (castWord t field) := by
  unfold castWord nonnegativeWord at *
  rcases hfield : i64Field t field with - | v
  · rfl
  · rw [hfield] at h
    obtain ⟨i, -, rfl⟩ := Option.map_eq_some_iff.1 hfield
    refine if_neg fun hneg => ?_
    have hbig := le_toSize_of_neg hneg (toI64_range i).1
    dsimp only at h
    omega

theorem create_spec {dtype : DType} {shape : List ℤ} {layout : Layout} {byteOffset byteSize : ℕ}
    {view : TensorView} (h : TensorView.create dtype shape layout byteOffset byteSize = .ok view) :
    view.byteOffset = byteOffset ∧ byteSize ≤ view.byteSize := by
  unfold TensorView.create at h
  generalize computeByteSize shape dtype = computed at h
  rcases computed with - | computed
  · split_ifs at h
  · dsimp only at h
    split_ifs at h with _ _ _ hzero
    · obtain rfl := Except.ok.inj h
      exact ⟨rfl, by omega⟩
    · obtain rfl := Except.ok.inj h
      exact ⟨rfl, le_rfl⟩

theorem checkWindow_ok {who : String} {view : TensorView} {size : ℕ} :
    checkWindow who view size = .ok () ↔
      view.byteSize ≤ word64 - 1 - view.byteOffset ∧ view.byteOffset + view.byteSize ≤ size := by
  unfold checkWindow
  split_ifs with hover hshort
  · simp
    omega
  · simp
    omega
  · simp
    omega

/-- **The tensors agree** where the window fits into a buffer. -/
theorem tensor_iff {t : Document} {view : TensorView} {size : ℕ} (hsize : size < 2 ^ 63)
    (hfits : view.byteOffset + view.byteSize ≤ size) :
    parseTensorViewJson t = .ok view ↔ decodeTensor t = .ok view := by
  unfold parseTensorViewJson decodeTensor
  simp only [bind_eq_ok]
  constructor
  · rintro ⟨dtype, hdtype, layout, hlayout, shape, hshape, offset, hoffset, bytes, hbytes, hcreate⟩
    rw [castWord_eq hoffset, castWord_eq hbytes]
    exact ⟨dtype, hdtype, layout, hlayout, shape, hshape, hcreate⟩
  · rintro ⟨dtype, hdtype, layout, hlayout, shape, hshape, hcreate⟩
    obtain ⟨hoffset, hbytes⟩ := create_spec hcreate
    exact ⟨dtype, hdtype, layout, hlayout, shape, hshape, _, nonnegativeWord_of_lt (by omega), _,
      nonnegativeWord_of_lt (by omega), hcreate⟩

/-! ## The envelope -/

theorem metadataExtra_eq (m : Document) : metadataExtra m = parseMetadataExtra m := by
  unfold metadataExtra parseMetadataExtra objectField
  rcases m.find "extra".toList with - | d
  · rfl
  · cases d with
    | object members => rfl
    | _ => rfl

theorem decodeMetadata_eq (root : Document) : decodeMetadata root = frameMetadata root := by
  unfold decodeMetadata frameMetadata
  rcases objectField root "metadata" with - | m
  · rfl
  · have hstring : ∀ field, metadataString m field = parseOptionalMetadataString m field := by
      intro field
      unfold metadataString parseOptionalMetadataString
      rcases stringField m field with - | v
      · rfl
      · rfl
    simp only [parseMetadataObject, hstring, metadataExtra_eq]

theorem inputItems_eq {root : Document} {items : List Document} (h : inputItems root = .ok items) :
    (arrayField root "inputs").getD [] = items := by
  unfold inputItems at h
  unfold arrayField
  split at h
  · rename_i item rest hitems
    rw [hitems]
    exact Except.ok.inj h
  · exact absurd h (by simp)

/-- **The JSON decoder** reads the envelope as the other does. -/
theorem decodeInferRequest_ok {parse : List UInt8 → Except (List Char) Document}
    {body : List UInt8} {root : Document} (h : parse body = .ok root) {d : DecodedInferRequest} :
    decodeInferRequest parse body = .ok d ↔ ∃ out inputs, parseRequestMetadataRoot root = .ok out ∧
      ((arrayField root "inputs").getD []).mapM decodeInput = .ok inputs ∧
      d = { out with inputs := inputs } := by
  unfold decodeInferRequest parseRequestMetadataRoot parseRequestMetadata parseJson
  rw [h]
  simp only [bind_eq_ok, decodeMetadata_eq, Except.ok.injEq, exists_eq_left']
  constructor
  · rintro ⟨_, hroot, _, hversion, requestId, hid, endpoint, hendpoint, items, hitems,
      metadata, hmetadata, deadline, hdeadline, inputs, hinputs, hd⟩
    refine ⟨_, inputs, ⟨_, hroot, _, hversion, requestId, hid, endpoint, hendpoint, items, hitems,
      _, ⟨metadata, hmetadata, deadline, hdeadline, rfl⟩, rfl⟩, ?_, ?_⟩
    · rw [inputItems_eq hitems]
      exact hinputs
    · exact (Except.ok.inj hd).symm
  · rintro ⟨_, inputs, ⟨_, hroot, _, hversion, requestId, hid, endpoint, hendpoint, items, hitems,
      _, ⟨metadata, hmetadata, deadline, hdeadline, hpair⟩, hout⟩, hinputs, rfl⟩
    obtain rfl := Except.ok.inj hpair
    obtain rfl := Except.ok.inj hout
    rw [inputItems_eq hitems] at hinputs
    exact ⟨_, hroot, _, hversion, requestId, hid, endpoint, hendpoint, items, hitems,
      metadata, hmetadata, deadline, hdeadline, inputs, hinputs, rfl⟩

/-! ## Windows written out -/

/-- The window of an input, where it has one inside the payload. -/
def window? (payload : List UInt8) (item : Document) : Option (List UInt8) := do
  let offset ← integerField item "payload_offset"
  let size ← integerField item "payload_size"
  if 0 ≤ offset ∧ 0 ≤ size ∧ offset + size ≤ payload.length then
    some ((payload.drop offset.toNat).take size.toNat)
  else none

/-- What a window written out takes the place of. -/
def payloadKeys : List (List Char) :=
  ["payload_b64".toList, "payload_offset".toList, "payload_size".toList]

/-- The members of an input, its bytes in base64 in the place of a window. -/
def writtenOut (bytes : List UInt8) (members : List (List Char × Document)) :
    List (List Char × Document) :=
  ("payload_b64".toList, .string (base64Encode bytes)) ::
    members.filter fun m => m.1 ∉ payloadKeys

/-- An input, its window written out. -/
def inlineInput (payload : List UInt8) (item : Document) : Document :=
  match item, window? payload item with
  | .object members, some bytes => .object (writtenOut bytes members)
  | item, _ => item

/-- The inputs of a document, their windows written out. -/
def inlineItems (payload : List UInt8) : Document → Document
  | .array items => .array (items.map (inlineInput payload))
  | d => d

/-- A document, the values of one key changed. -/
def modify (key : List Char) (change : Document → Document) : Document → Document
  | .object members =>
    .object (members.map fun m => if m.1 = key then (m.1, change m.2) else m)
  | root => root

/-- **A document, its windows written out.** -/
def inlined (payload : List UInt8) (root : Document) : Document :=
  modify "inputs".toList (inlineItems payload) root

/-- The inputs of a document. -/
def inputsOf (root : Document) : List Document := (arrayField root "inputs").getD []

/-- **Every window of the document lies inside the payload.** -/
def WindowsInside (payload : List UInt8) (root : Document) : Prop :=
  ∀ item ∈ inputsOf root, (window? payload item).isSome

theorem find_modify {change : Document → Document} {root : Document} {key k : List Char} :
    (modify k change root).find key =
      if key = k then (root.find key).map change else root.find key := by
  cases root with
  | object members =>
    unfold modify Document.find
    dsimp only
    induction members with
    | nil => simp
    | cons m rest ih =>
      by_cases hkey : m.1 = key
      · subst hkey
        by_cases hk : m.1 = k
        · simp [hk]
        · simp [hk]
      · have hsame : ¬(if m.1 = k then (m.1, change m.2) else m).1 = key := by
          split_ifs
          · exact hkey
          · exact hkey
        rw [List.map_cons, List.find?_cons_of_neg (by simpa using hsame), ih,
          List.find?_cons_of_neg (by simpa using hkey)]
  | _ => simp [modify, Document.find]

theorem find_first (first : List Char × Document) (members : List (List Char × Document)) :
    (Document.object (first :: members)).find first.1 = some first.2 := by
  simp [Document.find]

/-- A member put first in the place of some keys is not in the way of others. -/
theorem find_replaced {keys : List (List Char)} {first : List Char × Document}
    {members : List (List Char × Document)} {key : List Char} (hfirst : first.1 ∈ keys)
    (hkey : key ∉ keys) :
    (Document.object (first :: members.filter fun m => m.1 ∉ keys)).find key =
      (Document.object members).find key := by
  have hne : ¬first.1 = key := fun h => hkey (h ▸ hfirst)
  unfold Document.find
  dsimp only
  rw [List.find?_cons_of_neg (by simpa using hne), List.find?_filter]
  congr 2
  funext m
  by_cases hm : m.1 = key
  · subst hm
    simp [hkey]
  · simp [hm]

theorem find_inlined {payload : List UInt8} {root : Document} {key : List Char}
    (hkey : key ≠ "inputs".toList) : (inlined payload root).find key = root.find key := by
  rw [inlined, find_modify, if_neg hkey]

theorem inputsOf_inlined (payload : List UInt8) (root : Document) :
    inputsOf (inlined payload root) = (inputsOf root).map (inlineInput payload) := by
  unfold inputsOf arrayField inlined
  rw [find_modify, if_pos rfl]
  rcases root.find "inputs".toList with - | d
  · rfl
  · cases d with
    | array items => rfl
    | _ => rfl

theorem isObject_inlined (payload : List UInt8) (root : Document) :
    (inlined payload root).isObject = root.isObject := by
  cases root with
  | _ => rfl

theorem stringField_inlined {payload : List UInt8} {root : Document} {key : String}
    (hkey : key ≠ "inputs") : stringField (inlined payload root) key = stringField root key := by
  unfold stringField
  rw [find_inlined fun h => hkey (String.toList_inj.1 h)]

/-- The envelope does not depend on how the bytes are given. -/
theorem parseRequestMetadataRoot_inlined (payload : List UInt8) (root : Document) :
    parseRequestMetadataRoot (inlined payload root) = parseRequestMetadataRoot root := by
  have hfind : ∀ {key : String}, key ≠ "inputs" →
      (inlined payload root).find key.toList = root.find key.toList :=
    fun hkey => find_inlined fun h => hkey (String.toList_inj.1 h)
  have hitems : ∀ {α : Type} (rest : Except Error α),
      (inputItems (inlined payload root) >>= fun _ => rest) = inputItems root >>= fun _ => rest := by
    intro α rest
    have hinputs := inputsOf_inlined payload root
    unfold inputsOf arrayField at hinputs
    unfold inputItems
    generalize ((inlined payload root).find "inputs".toList).bind Document.array? = written
      at hinputs ⊢
    generalize (root.find "inputs".toList).bind Document.array? = items at hinputs ⊢
    rcases items with - | - | ⟨item, items⟩
    · rcases written with - | - | ⟨first, more⟩
      · rfl
      · rfl
      · exact absurd hinputs (by simp)
    · rcases written with - | - | ⟨first, more⟩
      · rfl
      · rfl
      · exact absurd hinputs (by simp)
    · rcases written with - | - | ⟨first, more⟩
      · exact absurd hinputs (by simp)
      · exact absurd hinputs (by simp)
      · rfl
  unfold parseRequestMetadataRoot parseRequestMetadata
  rw [show checkRoot (inlined payload root) = checkRoot root by
      unfold checkRoot
      rw [isObject_inlined],
    show checkSchemaVersion (inlined payload root) = checkSchemaVersion root by
      unfold checkSchemaVersion
      rw [stringField_inlined (by decide)],
    show requiredString (inlined payload root) "request_id" = requiredString root "request_id" by
      unfold requiredString
      rw [stringField_inlined (by decide)],
    show requiredString (inlined payload root) "endpoint" = requiredString root "endpoint" by
      unfold requiredString
      rw [stringField_inlined (by decide)],
    show frameMetadata (inlined payload root) = frameMetadata root by
      unfold frameMetadata objectField
      rw [hfind (by decide)],
    show deadlineMs (inlined payload root) = deadlineMs root by
      unfold deadlineMs i64Field integerField
      rw [hfind (by decide)]]
  simp only [hitems]

/-! ## Inputs -/

theorem refuseIf_ok {c : Prop} [Decidable c] {e : Error} : refuseIf c e = .ok () ↔ ¬c := by
  unfold refuseIf
  split_ifs with h
  · simp [h]
  · simp [h]

theorem readNonnegativeSize_ok {item : Document} (hranged : item.Ranged) {field : String} {n : ℕ} :
    readNonnegativeSize item field = .ok n ↔
      ∃ i, integerField item field = some i ∧ 0 ≤ i ∧ i < 2 ^ 63 ∧ n = i.toNat := by
  unfold readNonnegativeSize i64Field
  rcases hfield : integerField item field with - | i
  · simp
  · have hrange := hranged.integerField hfield
    have hword := toI64_range i
    simp only [Option.map_some, Option.some.injEq, exists_eq_left']
    constructor
    · intro h
      split_ifs at h with hneg
      have hsame := toI64_of_ranged hrange (by omega)
      have hsize := toSize_of_nonneg (v := toI64 i) (by omega) hword.2
      obtain rfl := Except.ok.inj h
      rw [hsame] at hword hneg
      refine ⟨by omega, hword.2, ?_⟩
      rw [hsize, hsame]
    · rintro ⟨hnonneg, hlt, rfl⟩
      rw [toI64_of_lt hnonneg hlt, if_neg (by omega), toSize_of_nonneg hnonneg hlt]

theorem window_eq_some {payload : List UInt8} {item : Document} {bytes : List UInt8} :
    window? payload item = some bytes ↔
      ∃ offset size, integerField item "payload_offset" = some offset ∧
        integerField item "payload_size" = some size ∧ 0 ≤ offset ∧ 0 ≤ size ∧
        offset + size ≤ payload.length ∧
        bytes = (payload.drop offset.toNat).take size.toNat := by
  unfold window?
  constructor
  · intro h
    obtain ⟨offset, hoffset, h⟩ := Option.bind_eq_some_iff.1 h
    obtain ⟨size, hsize, h⟩ := Option.bind_eq_some_iff.1 h
    split_ifs at h with hinside
    exact ⟨offset, size, hoffset, hsize, hinside.1, hinside.2.1, hinside.2.2,
      (Option.some.inj h).symm⟩
  · rintro ⟨offset, size, hoffset, hsize, h₀, h₁, h₂, rfl⟩
    rw [hoffset, hsize]
    exact if_pos ⟨h₀, h₁, h₂⟩

theorem window_length {payload bytes : List UInt8} {item : Document}
    (h : window? payload item = some bytes) : bytes.length ≤ payload.length := by
  obtain ⟨offset, size, -, -, -, -, -, rfl⟩ := window_eq_some.1 h
  rw [List.length_take, List.length_drop]
  omega

/-- What a frame's input is read from. -/
theorem decodeBinaryInput_iff {payload : List UInt8} (hpayload : payload.length < 2 ^ 63)
    {item : Document} (hranged : item.Ranged) {d : DecodedInput} :
    decodeBinaryInput payload item = .ok d ↔ ∃ name t view bytes, inputName item = .ok name ∧
      inputTensor item = .ok t ∧ parseTensorViewJson t = .ok view ∧
      window? payload item = some bytes ∧
      checkWindow "binary infer request" view bytes.length = .ok () ∧ d = ⟨name, bytes, view⟩ := by
  unfold decodeBinaryInput
  simp only [bind_eq_ok]
  constructor
  · rintro ⟨name, hname, t, ht, view, hview, offset, hoffset, size, hsize, _, hwindow, _, hcheck,
      hd⟩
    obtain ⟨i, hi, hi₀, hi₁, rfl⟩ := (readNonnegativeSize_ok hranged).1 hoffset
    obtain ⟨j, hj, hj₀, hj₁, rfl⟩ := (readNonnegativeSize_ok hranged).1 hsize
    have hinside := refuseIf_ok.1 hwindow
    have hlength : ((payload.drop i.toNat).take j.toNat).length = j.toNat := by
      rw [List.length_take, List.length_drop]
      omega
    refine ⟨name, t, view, _, hname, ht, hview,
      window_eq_some.2 ⟨i, j, hi, hj, hi₀, hj₀, by omega, rfl⟩, ?_, (Except.ok.inj hd).symm⟩
    rw [hlength]
    exact hcheck
  · rintro ⟨name, t, view, bytes, hname, ht, hview, hwindow, hcheck, rfl⟩
    obtain ⟨i, j, hi, hj, hi₀, hj₀, hinside, rfl⟩ := window_eq_some.1 hwindow
    have hlength : ((payload.drop i.toNat).take j.toNat).length = j.toNat := by
      rw [List.length_take, List.length_drop]
      omega
    rw [hlength] at hcheck
    exact ⟨name, hname, t, ht, view, hview, _,
      (readNonnegativeSize_ok hranged).2 ⟨i, hi, hi₀, by omega, rfl⟩, _,
      (readNonnegativeSize_ok hranged).2 ⟨j, hj, hj₀, by omega, rfl⟩, (),
      refuseIf_ok.2 (by omega), (), hcheck, rfl⟩

/-- What the same input is read from, its window written out. -/
theorem decodeInput_iff {payload bytes : List UInt8} {item : Document}
    (hwindow : window? payload item = some bytes) {d : DecodedInput} :
    decodeInput (inlineInput payload item) = .ok d ↔ ∃ name t view, inputName item = .ok name ∧
      inputTensor item = .ok t ∧ decodeTensor t = .ok view ∧
      checkWindow "infer request" view bytes.length = .ok () ∧ d = ⟨name, bytes, view⟩ := by
  cases item with
  | object members =>
    have hinline : inlineInput payload (.object members) = .object (writtenOut bytes members) := by
      unfold inlineInput
      rw [hwindow]
    have hfind : ∀ {key : String}, key.toList ∉ payloadKeys →
        (Document.object (writtenOut bytes members)).find key.toList =
          (Document.object members).find key.toList :=
      fun hkey => find_replaced (List.mem_cons_self ..) hkey
    have hname : inputName (.object (writtenOut bytes members)) = inputName (.object members) := by
      unfold inputName stringField
      rw [hfind (by decide)]
      rfl
    have htensor : inputTensor (.object (writtenOut bytes members)) =
        inputTensor (.object members) := by
      unfold inputTensor objectField
      rw [hfind (by decide)]
    have htext : payloadText (.object (writtenOut bytes members)) = .ok (base64Encode bytes) := by
      have hpayload : (Document.object (writtenOut bytes members)).find "payload_b64".toList =
          some (.string (base64Encode bytes)) := find_first (_, _) _
      unfold payloadText stringField
      rw [hpayload]
      rfl
    rw [hinline]
    unfold decodeInput
    simp only [hname, htensor, htext, bind_eq_ok, Except.ok.injEq, exists_eq_left',
      base64Decode_base64Encode]
    constructor
    · rintro ⟨name, hname, t, ht, view, hview, _, hcheck, hd⟩
      exact ⟨name, t, view, hname, ht, hview, hcheck, (Except.ok.inj hd).symm⟩
    · rintro ⟨name, t, view, hname, ht, hview, hcheck, rfl⟩
      exact ⟨name, hname, t, ht, view, hview, (), hcheck, rfl⟩
  | _ => exact absurd hwindow (by simp [window?, integerField, Document.find])

/-- **A frame's input is read where the same input, its window written out,
is read.** -/
theorem decodeBinaryInput_ok {payload : List UInt8} (hpayload : payload.length < 2 ^ 63)
    {item : Document} (hranged : item.Ranged) {d : DecodedInput} :
    decodeBinaryInput payload item = .ok d ↔
      (window? payload item).isSome ∧ decodeInput (inlineInput payload item) = .ok d := by
  rw [decodeBinaryInput_iff hpayload hranged]
  constructor
  · rintro ⟨name, t, view, bytes, hname, ht, hview, hwindow, hcheck, rfl⟩
    have hfits := checkWindow_ok.1 hcheck
    have hlength := window_length hwindow
    refine ⟨Option.isSome_iff_exists.2 ⟨bytes, hwindow⟩,
      (decodeInput_iff hwindow).2 ⟨name, t, view, hname, ht, ?_, checkWindow_ok.2 hfits, rfl⟩⟩
    exact (tensor_iff hpayload (by omega)).1 hview
  · rintro ⟨hsome, hinput⟩
    obtain ⟨bytes, hwindow⟩ := Option.isSome_iff_exists.1 hsome
    obtain ⟨name, t, view, hname, ht, hview, hcheck, rfl⟩ := (decodeInput_iff hwindow).1 hinput
    have hfits := checkWindow_ok.1 hcheck
    have hlength := window_length hwindow
    refine ⟨name, t, view, bytes, hname, ht, ?_, hwindow, checkWindow_ok.2 hfits, rfl⟩
    exact (tensor_iff hpayload (by omega)).2 hview

theorem decodeBinaryInputs_ok {payload : List UInt8} (hpayload : payload.length < 2 ^ 63)
    {items : List Document} (hranged : ∀ item ∈ items, item.Ranged) {inputs : List DecodedInput} :
    items.mapM (decodeBinaryInput payload) = .ok inputs ↔
      (∀ item ∈ items, (window? payload item).isSome) ∧
        (items.map (inlineInput payload)).mapM decodeInput = .ok inputs := by
  induction items generalizing inputs with
  | nil => simp
  | cons item rest ih =>
    have hrest := fun {inputs} => @ih (fun i hi => hranged i (List.mem_cons_of_mem _ hi)) inputs
    have hitem := fun {d} => decodeBinaryInput_ok (d := d) hpayload
      (hranged item List.mem_cons_self)
    rw [List.map_cons, List.mapM_cons, List.mapM_cons]
    simp only [bind_eq_ok, hitem, hrest, List.forall_mem_cons]
    constructor
    · rintro ⟨d, ⟨hwindow, hd⟩, ds, ⟨hwindows, hds⟩, h⟩
      exact ⟨⟨hwindow, hwindows⟩, d, hd, ds, hds, h⟩
    · rintro ⟨⟨hwindow, hwindows⟩, d, hd, ds, hds, h⟩
      exact ⟨d, ⟨hwindow, hd⟩, ds, ⟨hwindows, hds⟩, h⟩

/-! ## Frames -/

/-- **The frame** of a text and a payload. -/
def frame (text payload : List UInt8) : List UInt8 :=
  kBinaryInferMagic ++ appendU32Le text.length ++ text ++ payload

theorem or_words {a b c d : ℕ} (ha : a < 256) (hb : b < 256) (hc : c < 256) :
    a ||| (b <<< 8) ||| (c <<< 16) ||| (d <<< 24) = a + 256 * b + 65536 * c + 16777216 * d := by
  simp only [Nat.shiftLeft_eq]
  rw [Nat.or_comm a, or_eq_add 8 rfl ha, Nat.or_comm _ (c * 2 ^ 16),
    or_eq_add 16 rfl (by omega), Nat.or_comm _ (d * 2 ^ 24), or_eq_add 24 rfl (by omega)]
  omega

theorem readU32Le_append {n : ℕ} (h : n < 2 ^ 32) (rest : List UInt8) :
    readU32Le (appendU32Le n ++ rest) = n := by
  have hbyte : ∀ v : ℕ, (UInt8.ofNat (v &&& 0xFF)).toNat = v % 256 := by
    intro v
    rw [and_255]
    simp
  unfold readU32Le appendU32Le
  dsimp only [List.cons_append]
  rw [hbyte, hbyte, hbyte, hbyte, or_words (by omega) (by omega) (by omega)]
  simp only [Nat.shiftRight_eq_div_pow]
  omega

/-- **A frame is decoded** by its document and its payload. -/
theorem decodeBinaryInferRequest_ok {parse : List UInt8 → Except (List Char) Document}
    {text payload : List UInt8} {root : Document} (hparse : parse text = .ok root)
    (htext : text.length < 2 ^ 32) {d : DecodedInferRequest} :
    decodeBinaryInferRequest parse (frame text payload) = .ok d ↔
      ∃ out inputs, parseRequestMetadataRoot root = .ok out ∧
        (inputsOf root).mapM (decodeBinaryInput payload) = .ok inputs ∧
        d = { out with inputs := inputs } := by
  have hlength : (frame text payload).length = 12 + text.length + payload.length := by
    simp [frame, kBinaryInferMagic, appendU32Le]
    omega
  have hmagic : (frame text payload).take kBinaryInferMagic.length = kBinaryInferMagic := by
    rw [frame, List.append_assoc, List.append_assoc, List.take_left]
  have hdrop : (frame text payload).drop kBinaryInferMagic.length =
      appendU32Le text.length ++ (text ++ payload) := by
    rw [frame, List.append_assoc, List.append_assoc, List.drop_left]
  have hbody : (frame text payload).drop (kBinaryInferMagic.length + 4) = text ++ payload := by
    rw [← List.drop_drop, hdrop]
    exact @List.drop_left _ (appendU32Le text.length) _
  have hrest : (frame text payload).drop (kBinaryInferMagic.length + 4 + text.length) = payload := by
    rw [← List.drop_drop, hbody, List.drop_left]
  have hheader : kBinaryInferMagic.length + 4 = 12 := rfl
  unfold decodeBinaryInferRequest parseJson inputsOf
  simp only [hdrop, readU32Le_append htext, hbody, hrest, List.take_left, hparse]
  simp only [bind_eq_ok, Except.ok.injEq, exists_eq_left']
  constructor
  · rintro ⟨_, -, _, -, _, -, out, hout, inputs, hinputs, hd⟩
    exact ⟨out, inputs, hout, hinputs, (Except.ok.inj hd).symm⟩
  · rintro ⟨out, inputs, hout, hinputs, rfl⟩
    exact ⟨(), refuseIf_ok.2 (by omega), (), refuseIf_ok.2 (not_not.2 hmagic), (),
      refuseIf_ok.2 (by omega), out, hout, inputs, hinputs, rfl⟩

theorem inputsOf_ranged {root : Document} (h : root.Ranged) :
    ∀ item ∈ inputsOf root, item.Ranged := by
  intro item hitem
  unfold inputsOf arrayField at hitem
  rcases hfind : root.find "inputs".toList with - | d
  · rw [hfind] at hitem
    exact absurd hitem (by simp)
  · have hranged := h.find hfind
    rw [hfind] at hitem
    cases hranged with
    | array hitems => exact hitems item hitem
    | _ => exact absurd hitem (by simp [Document.array?])

/-- **The two decoders accept the same requests.** The frame of a document
and a payload is decoded to a request if and only if every window of the
document lies inside the payload and the document with its windows written
out in base64 is decoded to the same request. -/
theorem decoders_agree (parse : List UInt8 → Except (List Char) Document)
    {text written payload : List UInt8} {m : Document} (hparse : parse text = .ok m)
    (hwritten : parse written = .ok (inlined payload m)) (hranged : m.Ranged)
    (htext : text.length < 2 ^ 32) (hpayload : payload.length < 2 ^ 63)
    (d : DecodedInferRequest) :
    decodeBinaryInferRequest parse (frame text payload) = .ok d ↔
      WindowsInside payload m ∧ decodeInferRequest parse written = .ok d := by
  have hinputs := inputsOf_inlined payload m
  have hitems := fun {inputs} => @decodeBinaryInputs_ok _ hpayload _
    (inputsOf_ranged hranged) inputs
  rw [decodeBinaryInferRequest_ok hparse htext, decodeInferRequest_ok hwritten,
    parseRequestMetadataRoot_inlined]
  unfold inputsOf at hinputs hitems
  unfold WindowsInside inputsOf
  rw [hinputs]
  simp only [hitems]
  constructor
  · rintro ⟨out, inputs, hout, ⟨hwindows, hinputs⟩, hd⟩
    exact ⟨hwindows, out, inputs, hout, hinputs, hd⟩
  · rintro ⟨hwindows, out, inputs, hout, hinputs, hd⟩
    exact ⟨out, inputs, hout, ⟨hwindows, hinputs⟩, hd⟩

/-- A document of one input, a byte at the second place of its payload. -/
def oneByteDocument : Document :=
  .object [("request_id".toList, .string "r".toList), ("endpoint".toList, .string "e".toList),
    ("inputs".toList, .array [.object [("name".toList, .string "x".toList),
      ("tensor".toList, .object [("dtype".toList, .string "uint8".toList),
        ("shape".toList, .array [.integer 1])]),
      ("payload_offset".toList, .integer 1), ("payload_size".toList, .integer 1)]])]

def bytesOf (text : String) : List UInt8 := text.toUTF8.data.toList

/-- Its text. -/
def oneByteText : List UInt8 := bytesOf
  ("\x7b\"request_id\":\"r\",\"endpoint\":\"e\",\"inputs\":[\x7b\"name\":\"x\"," ++
    "\"tensor\":\x7b\"dtype\":\"uint8\",\"shape\":[1]\x7d," ++
    "\"payload_offset\":1,\"payload_size\":1\x7d]\x7d")

/-- Its text, the window written out. -/
def oneByteWritten : List UInt8 := bytesOf
  ("\x7b\"request_id\":\"r\",\"endpoint\":\"e\",\"inputs\":[\x7b\"payload_b64\":\"Bw==\"," ++
    "\"name\":\"x\",\"tensor\":\x7b\"dtype\":\"uint8\",\"shape\":[1]\x7d\x7d]\x7d")

/-- A parser that knows the two texts. -/
def parseOneByte (text : List UInt8) : Except (List Char) Document :=
  if text = oneByteText then .ok oneByteDocument
  else if text = oneByteWritten then .ok (inlined [5, 7] oneByteDocument)
  else .error "syntax error".toList

theorem oneByteDocument_ranged : oneByteDocument.Ranged := by
  unfold oneByteDocument
  repeat' first
    | apply Document.Ranged.object
    | apply Document.Ranged.array
    | apply Document.Ranged.string
    | apply Document.Ranged.integer
    | (simp only [List.forall_mem_cons, List.not_mem_nil, false_implies, implies_true, and_true])
    | refine ⟨?_, ?_⟩
    | decide

theorem decoders_agree_oneByte :
    decodeInferRequest parseOneByte oneByteWritten =
      .ok ⟨"r".toList, "e".toList, {}, none, [⟨"x".toList, [7], ⟨.uint8, [1], .rowMajor, 0, 1⟩⟩]⟩ := by
  have hparse : parseOneByte oneByteText = .ok oneByteDocument := if_pos rfl
  have hwritten : parseOneByte oneByteWritten = .ok (inlined [5, 7] oneByteDocument) := by
    unfold parseOneByte
    rw [if_neg (by decide +kernel), if_pos rfl]
  have htext : oneByteText.length < 2 ^ 32 := by decide +kernel
  have hinputs : (inputsOf oneByteDocument).mapM (decodeBinaryInput [5, 7]) =
      .ok [⟨"x".toList, [7], ⟨.uint8, [1], .rowMajor, 0, 1⟩⟩] := by decide +kernel
  have hframe := (decodeBinaryInferRequest_ok hparse htext).2
    ⟨⟨"r".toList, "e".toList, {}, none, []⟩, _, by decide +kernel, hinputs, rfl⟩
  exact ((decoders_agree parseOneByte hparse hwritten oneByteDocument_ranged htext
    (by decide) _).1 hframe).2

end Serialization

end Tensorplate
