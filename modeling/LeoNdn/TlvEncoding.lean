import LeoNdn.Tlv
import Mathlib.Algebra.Ring.Nat

/-!
Writing TLV, and that what is written is read back.
-/

namespace LeoNdn.TlvEncoding

open LeoNdn.Tlv

def toBigEndian : ℕ → ℕ → List UInt8
  | 0, _ => []
  | size + 1, number => toBigEndian size (number / 256) ++ [UInt8.ofNat number]

def encodeVarNumber (varNumber : ℕ) : List UInt8 :=
  if varNumber < 253 then [UInt8.ofNat varNumber]
  else if varNumber ≤ 65535 then 253 :: toBigEndian 2 varNumber
  else if varNumber ≤ 4294967295 then 254 :: toBigEndian 4 varNumber
  else 255 :: toBigEndian 8 varNumber

def encodeNonNegativeInteger (varNumber : ℕ) : List UInt8 :=
  if varNumber ≤ 255 then toBigEndian 1 varNumber
  else if varNumber ≤ 65535 then toBigEndian 2 varNumber
  else if varNumber ≤ 4294967295 then toBigEndian 4 varNumber
  else toBigEndian 8 varNumber

def wire (block : Block) : List UInt8 :=
  encodeVarNumber block.type ++ encodeVarNumber block.value.length ++ block.value

def makeNonNegativeIntegerBlock (type value : ℕ) : Block := ⟨type, encodeNonNegativeInteger value⟩

def makeBlock (type : ℕ) (elements : List Block) : Block := ⟨type, elements.flatMap wire⟩

def Encodable (block : Block) : Prop := block.type ≤ 4294967295 ∧ block.value.length < 18446744073709551616

section Numbers

theorem toBigEndian_length (size number : ℕ) : (toBigEndian size number).length = size := by
  induction size generalizing number with
  | zero => rfl
  | succ size ih => rw [toBigEndian, List.length_append, ih, List.length_singleton]

theorem length_encodeVarNumber (number : ℕ) : (encodeVarNumber number).length =
    if number < 253 then 1 else if number ≤ 65535 then 3 else if number ≤ 4294967295 then 5 else 9 := by
  unfold encodeVarNumber
  split
  · rfl
  · split
    · rw [List.length_cons, toBigEndian_length]
    · split <;> rw [List.length_cons, toBigEndian_length]

theorem length_wire (block : Block) : (wire block).length =
    (encodeVarNumber block.type).length + (encodeVarNumber block.value.length).length + block.value.length := by
  rw [wire, List.length_append, List.length_append]

theorem bigEndian_append (bytes : List UInt8) (octet : UInt8) :
    bigEndian (bytes ++ [octet]) = bigEndian bytes * 256 + octet.toNat := by
  rw [bigEndian, List.foldl_append]
  rfl

theorem bigEndian_toBigEndian {size number : ℕ} (h : number < 256 ^ size) :
    bigEndian (toBigEndian size number) = number := by
  induction size generalizing number with
  | zero => exact (Nat.lt_one_iff.mp h).symm
  | succ size ih =>
    have hdiv : number / 256 < 256 ^ size := Nat.div_lt_of_lt_mul (by rwa [← Nat.pow_succ'])
    rw [toBigEndian, bigEndian_append, ih hdiv, UInt8.toNat_ofNat']
    exact Nat.div_add_mod' number 256

theorem readNumber_toBigEndian {size number : ℕ} (h : number < 256 ^ size) (rest : List UInt8) :
    readNumber size (toBigEndian size number ++ rest) = some (number, rest) := by
  have hlength := toBigEndian_length size number
  rw [readNumber, if_neg (by rw [List.length_append, hlength]; omega)]
  rw [List.take_left' hlength, List.drop_left' hlength, bigEndian_toBigEndian h]

theorem readVarNumber_encodeVarNumber {varNumber : ℕ} (h : varNumber < 18446744073709551616) (rest : List UInt8) :
    readVarNumber (encodeVarNumber varNumber ++ rest) = .ok (varNumber, rest) := by
  unfold encodeVarNumber
  split
  · rename_i hsmall
    have hoctet : (UInt8.ofNat varNumber).toNat = varNumber := by
      rw [UInt8.toNat_ofNat']
      omega
    simp only [List.singleton_append, readVarNumber, hoctet, hsmall, if_true]
  · split
    · rw [List.cons_append, readVarNumber, if_neg (by decide), if_pos rfl, readNumber_toBigEndian (by omega)]
    · split
      · rw [List.cons_append, readVarNumber, if_neg (by decide), if_neg (by decide), if_pos rfl, readNumber_toBigEndian (by omega)]
      · rw [List.cons_append, readVarNumber, if_neg (by decide), if_neg (by decide), if_neg (by decide),
          readNumber_toBigEndian (by omega)]

theorem readType_encodeVarNumber {type : ℕ} (h : type ≤ 4294967295) (rest : List UInt8) :
    readType (encodeVarNumber type ++ rest) = .ok (type, rest) := by
  rw [readType, readVarNumber_encodeVarNumber (by omega)]
  exact if_neg (by omega)

theorem readNonNegativeInteger_encode {value : ℕ} (h : value < 18446744073709551616) (type : ℕ) :
    readNonNegativeInteger (makeNonNegativeIntegerBlock type value) = .ok value := by
  have hread : ∀ size ∈ [1, 2, 4, 8], value < 256 ^ size →
      readNonNegativeInteger ⟨type, toBigEndian size value⟩ = .ok value := by
    intro size hsize hlt
    rw [readNonNegativeInteger, if_pos (by rw [toBigEndian_length]; exact hsize), bigEndian_toBigEndian hlt]
  unfold makeNonNegativeIntegerBlock encodeNonNegativeInteger
  split
  · exact hread 1 (by decide) (by omega)
  · split
    · exact hread 2 (by decide) (by omega)
    · split
      · exact hread 4 (by decide) (by omega)
      · exact hread 8 (by decide) (by omega)

end Numbers

section Blocks

theorem encodeVarNumber_ne_nil (varNumber : ℕ) : encodeVarNumber varNumber ≠ [] := by
  unfold encodeVarNumber
  repeat' split
  all_goals exact List.cons_ne_nil _ _

theorem wire_ne_nil (block : Block) : wire block ≠ [] := by
  rw [wire, List.append_assoc]
  exact List.append_ne_nil_of_left_ne_nil (encodeVarNumber_ne_nil _) _

theorem readElement_wire {block : Block} (h : Encodable block) (rest : List UInt8) :
    readElement (wire block ++ rest) = .ok (block, rest) := by
  rw [wire, List.append_assoc, List.append_assoc, readElement, readType_encodeVarNumber h.1]
  simp only [bind, Except.bind]
  rw [readVarNumber_encodeVarNumber h.2]
  simp only [List.length_append]
  rw [if_neg (by omega), List.take_left' rfl, List.drop_left' rfl]

theorem parse_makeBlock (type : ℕ) {elements : List Block} (h : ∀ element ∈ elements, Encodable element) :
    (makeBlock type elements).parse = .ok elements := by
  induction elements with
  | nil => rfl
  | cons element elements ih =>
    have hne : (element :: elements).flatMap wire ≠ [] := by
      rw [List.flatMap_cons]
      exact List.append_ne_nil_of_left_ne_nil (wire_ne_nil element) _
    rw [makeBlock, parse_cons type hne, List.flatMap_cons,
      readElement_wire (h element List.mem_cons_self)]
    have htail := ih fun element' helement' => h element' (List.mem_cons_of_mem _ helement')
    rw [makeBlock] at htail
    simp only [bind, Except.bind, htail]

theorem ofBuffer_wire {block : Block} (h : Encodable block) : Block.ofBuffer (wire block) = .ok block := by
  have hread : wire block = encodeVarNumber block.type ++ (encodeVarNumber block.value.length ++ block.value) := by
    rw [wire, List.append_assoc]
  rw [hread, Block.ofBuffer, readType_encodeVarNumber h.1]
  simp only [bind, Except.bind]
  rw [readVarNumber_encodeVarNumber h.2]
  simp only [Nat.lt_irrefl, gt_iff_lt, if_false, List.take_length]

theorem encodable_number {type value : ℕ} (h : type ≤ 4294967295) :
    Encodable (makeNonNegativeIntegerBlock type value) := by
  refine ⟨h, ?_⟩
  unfold makeNonNegativeIntegerBlock encodeNonNegativeInteger
  dsimp only
  repeat' split
  all_goals
    rw [toBigEndian_length]
    omega

end Blocks

end LeoNdn.TlvEncoding
