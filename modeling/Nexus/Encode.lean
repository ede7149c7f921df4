import Nexus.Lib.Codec

/-!
# Base64 strings

`nexus_encode.c` writes keys, quotes and identifiers as text.  The `base64` and
the `alt64` functions are the same loops over different alphabets, so the loops
take an `Alphabet`; each function is its loop at its own table and padding
character.

The encoder fills a zeroed buffer one character after another, the decoder one
byte after another.  Both are followed through `filled`: the buffer that holds
the first `n` bytes of its final contents.  Allocations succeed here.
-/

namespace Nexus.Encode

open Codec List

/-- An alphabet of 64 characters and a padding character, none of them the end of
a string. -/
structure Alphabet where
  table : Bytes
  pad : UInt8
  length_table : table.length = 64 := by decide +kernel
  nodup : (pad :: table).Nodup := by decide +kernel
  zero_notMem : 0 ∉ pad :: table := by decide +kernel

def chars (s : String) : Bytes := s.toList.map fun c => UInt8.ofNat c.toNat

def alt64 : Alphabet where
  table := chars "ABCDEFGHIJKLMNOPQRSTUVWXYZabcdefghijklmnopqrstuvwxyz0123456789-_"
  pad := 46

def base64 : Alphabet where
  table := chars "ABCDEFGHIJKLMNOPQRSTUVWXYZabcdefghijklmnopqrstuvwxyz0123456789+/"
  pad := 61

/-- How a call can fail: it returns -1, or the C program has no defined meaning. -/
inductive Fault
  | returned
  | undefined
  deriving DecidableEq

/-- `buf[k] = c` -/
def put (buf : Bytes) (k : Nat) (c : UInt8) : Except Fault Bytes :=
  if k < buf.length then .ok (buf.set k c) else .error .undefined

/-- `if (p) buf[k] = c` -/
def putIf (p : Prop) [Decidable p] (buf : Bytes) (k : Nat) (c : UInt8) : Except Fault Bytes :=
  if p then put buf k c else .ok buf

variable (A : Alphabet)

/-! ## The encoder -/

/-- Value `j` of chunk `i`.  A chunk is zero where it reaches past the end of the
source. -/
def encodeVal (src : Bytes) (i j : Nat) : UInt8 :=
  let chunk k := src.getD (i * 3 + k) 0
  match j with
  | 0 => chunk 0 >>> 2
  | 1 => chunk 1 >>> 4 ||| (chunk 0 &&& 0x03) <<< 4
  | 2 => chunk 2 >>> 6 ||| (chunk 1 &&& 0x0f) <<< 2
  | _ => chunk 2 &&& 0x3f

/-- Character `j` of chunk `i`. -/
def encodeChar (src : Bytes) (i j : Nat) : UInt8 :=
  if 2 ≤ j ∧ src.length ≤ i * 3 + (j - 1) then A.pad
  else A.table.getD (encodeVal src i j).toNat 0

def numChunks (len : Nat) : Nat := if len % 3 ≠ 0 then len / 3 + 1 else len / 3

theorem numChunks_bounds (len : Nat) : len ≤ numChunks len * 3 ∧ numChunks len * 3 < len + 3 := by
  unfold numChunks
  split <;> omega

/-- The loops of an encoder.  Sizes and positions are of type `uint32_t`; those in the
source do not wrap. -/
def encode (src : Bytes) : Except Fault Bytes :=
  (range (numChunks src.length)).foldlM
    (fun buf i => (range 4).foldlM
      (fun buf j => put buf ((i * 4 + j) % 2 ^ 32) (encodeChar A src i j)) buf)
    (replicate ((numChunks src.length * 4 + 1) % 2 ^ 32) 0)

def nexusAlt64Encode := encode alt64

def nexusBase64Encode := encode base64

/-! ## The decoder -/

/-- The pointer difference `index(table, c) - table`, which means nothing for a
character outside the table. -/
def tableIndex (c : UInt8) : Except Fault UInt8 :=
  match A.table.idxOf? c with
  | some k => .ok (UInt8.ofNat k)
  | none => .error .undefined

/-- One round of a decoder's loop. -/
def decodeChunk (str : Bytes) (padding last : Int) (buf : Bytes) (i : Nat) :
    Except Fault Bytes := do
  let chunk k := str.getD (i * 4 + k) 0
  let val0 ← tableIndex A (chunk 0)
  let val1 ← tableIndex A (chunk 1)
  let val2 := UInt8.ofNat ((A.table.idxOf? (chunk 2)).getD 0)
  let val3 := UInt8.ofNat ((A.table.idxOf? (chunk 3)).getD 0)
  let buf ← put buf (i * 3) ((val0 &&& 0x3f) <<< 2 ||| (val1 &&& 0x30) >>> 4)
  let buf ← putIf (padding ≤ 1 ∨ i ≠ last) buf (i * 3 + 1)
    ((val1 &&& 0x0f) <<< 4 ||| (val2 &&& 0x3c) >>> 2)
  putIf (padding = 0 ∨ i ≠ last) buf (i * 3 + 2) ((val2 &&& 0x03) <<< 6 ||| val3 &&& 0x3f)

/-- The number of characters from the first padding character to the end. -/
def padding (str : Bytes) (len : Int) : Int :=
  match str.idxOf? A.pad with
  | some k => Int.bmod (len - k) (2 ^ 32)
  | none => 0

/-- A decoder: the bytes and `dst_len`.  The length of the string, the number of
chunks and the padding are of type `int`, `out_len` of type `uint32_t`. -/
def decode : Option Bytes → Except Fault (Bytes × Nat)
  | none => .error .returned
  | some str => do
    let len : Int := Int.bmod str.length (2 ^ 32)
    if len.tmod 4 ≠ 0 then throw .returned
    let numChunks := len.tdiv 4
    let outLen := ((numChunks * 3 - padding A str len) % 2 ^ 32).toNat
    let buf ← (range numChunks.toNat).foldlM
      (decodeChunk A str (padding A str len) (numChunks - 1)) (replicate outLen 0)
    return (buf, outLen)

def nexusAlt64Decode := decode alt64

def nexusBase64Decode := decode base64

/-! ## Filling a buffer -/

/-- A zeroed buffer of the size of `t` after the first `n` bytes of `t` were
written to it. -/
def filled (t : Bytes) (n : Nat) : Bytes := t.take n ++ replicate (t.length - n) 0

section

variable {t : Bytes} {n : Nat} {c : UInt8}

theorem filled_of_length_le (h : t.length ≤ n) : filled t n = t := by
  simp [filled, take_of_length_le h, Nat.sub_eq_zero_of_le h]

theorem put_filled (h : t[n]? = some c) : put (filled t n) n c = .ok (filled t (n + 1)) := by
  obtain ⟨hn, rfl⟩ := List.getElem?_eq_some_iff.mp h
  have hprefix : (t.take n).length = n := length_take_of_le hn.le
  have hrest : t.length - n = t.length - (n + 1) + 1 := by omega
  have hlength : n < (filled t n).length := by
    rw [filled, length_append, hprefix, length_replicate]
    omega
  rw [put, if_pos hlength, filled, filled, hrest, replicate_succ, ← take_concat_get' t n hn,
    set_append_right _ _ hprefix.le, hprefix, Nat.sub_self, set_cons_zero, append_assoc]
  rfl

theorem putIf_filled {p : Prop} [Decidable p] (hp : p ↔ n < t.length) (hc : c = t.getD n 0) :
    putIf p (filled t n) n c = .ok (filled t (n + 1)) := by
  unfold putIf
  split
  next h => exact put_filled (by simp [hc, hp.mp h])
  next h =>
    have hend : t.length ≤ n := by rwa [hp, not_lt] at h
    rw [filled_of_length_le hend, filled_of_length_le (by omega)]

theorem foldlM_range {step : Bytes → Nat → Except Fault Bytes} (F : Nat → Bytes)
    (h : ∀ i < n, step (F i) i = .ok (F (i + 1))) :
    (range n).foldlM step (F 0) = .ok (F n) := by
  induction n with
  | zero => rfl
  | succ n ih =>
    rw [range_succ, foldlM_append, ih fun i hi => h i (by omega)]
    change (step (F n) n >>= pure) = _
    rw [h n (by omega)]
    rfl

end

/-! ## What is written -/

variable (src : Bytes)

/-- The string an encoder writes. -/
def encoded : Bytes :=
  (range (numChunks src.length * 4)).map fun k => encodeChar A src (k / 4) (k % 4)

@[simp] theorem length_encoded : (encoded A src).length = numChunks src.length * 4 := by
  simp [encoded]

variable {i j : Nat}

theorem getElem?_encoded (hi : i < numChunks src.length) (hj : j < 4) :
    (encoded A src)[i * 4 + j]? = some (encodeChar A src i j) := by
  have hk : i * 4 + j < numChunks src.length * 4 := by omega
  have hdiv : (i * 4 + j) / 4 = i := by omega
  have hmod : (i * 4 + j) % 4 = j := by omega
  simp [encoded, hk, hdiv, hmod]

theorem encode_eq (h : src.length < 2 ^ 30) : encode A src = .ok (encoded A src ++ [0]) := by
  have hchunks : numChunks src.length * 4 + 1 < 2 ^ 32 := by unfold numChunks; split <;> omega
  have hstart : replicate (numChunks src.length * 4 + 1) 0
      = filled (encoded A src ++ [0]) (0 * 4) := by
    simp [filled]
  rw [encode, Nat.mod_eq_of_lt hchunks, hstart,
    foldlM_range (fun i => filled (encoded A src ++ [0]) (i * 4)) fun i hi => ?_]
  · simp [filled]
  · rw [Nat.succ_mul]
    refine foldlM_range (fun j => filled (encoded A src ++ [0]) (i * 4 + j)) fun j hj => ?_
    rw [Nat.mod_eq_of_lt (by omega)]
    apply put_filled
    rw [getElem?_append_left (by rw [length_encoded]; omega), getElem?_encoded A src hi hj]

/-! ## One group -/

theorem eq_of_bits {x y : UInt8} (h : ∀ k < 8, x.toBitVec.getLsbD k = y.toBitVec.getLsbD k) :
    x = y :=
  UInt8.toBitVec_inj.mp (BitVec.eq_of_getLsbD_eq h)

theorem encodeVal_lt : (encodeVal src i j).toNat < 64 := by
  have hmask : encodeVal src i j = encodeVal src i j &&& 0x3f := by
    refine eq_of_bits fun k hk => ?_
    unfold encodeVal
    split <;> interval_cases k <;> simp
  rw [hmask, UInt8.toNat_and]
  exact Nat.lt_succ_of_le Nat.and_le_right

theorem idxOf?_table : A.table.idxOf? (A.table.getD (encodeVal src i j).toNat 0)
    = some (encodeVal src i j).toNat := by
  have hlt : (encodeVal src i j).toNat < A.table.length := A.length_table.symm ▸ encodeVal_lt src
  rw [idxOf?_eq_some_iff]
  refine ⟨hlt, by simp [hlt], fun k hk heq => ?_⟩
  rw [getD_eq_getElem?_getD, getElem?_eq_getElem hlt, Option.getD_some,
    A.nodup.of_cons.getElem_inj_iff] at heq
  omega

theorem table_mem : A.table.getD (encodeVal src i j).toNat 0 ∈ A.table := by
  by_contra hmem
  rw [← idxOf?_eq_none_iff, idxOf?_table] at hmem
  cases hmem

theorem encodeChar_eq_pad_iff :
    encodeChar A src i j = A.pad ↔ 2 ≤ j ∧ src.length ≤ i * 3 + (j - 1) := by
  unfold encodeChar
  split
  next h => exact iff_of_true rfl h
  next h =>
    refine iff_of_false (fun heq => ?_) h
    exact (nodup_cons.mp A.nodup).1 (heq ▸ table_mem A src)

theorem tableIndex_encodeChar (hj : j < 2) :
    tableIndex A (encodeChar A src i j) = .ok (encodeVal src i j) := by
  rw [encodeChar, if_neg (by omega), tableIndex, idxOf?_table]
  simp

theorem index_encodeChar (hj : j < 4) :
    UInt8.ofNat ((A.table.idxOf? (encodeChar A src i j)).getD 0) = encodeVal src i j := by
  unfold encodeChar
  split
  next h =>
    obtain ⟨hj', hend⟩ := h
    rw [idxOf?_eq_none_iff.mpr (nodup_cons.mp A.nodup).1]
    have htwo : src.length ≤ i * 3 + 2 := by omega
    interval_cases j <;> simp_all [encodeVal]
  next h =>
    rw [idxOf?_table]
    simp

variable {A src}

theorem decodeChunk_eq (hi : i < numChunks src.length) :
    decodeChunk A (encoded A src) (numChunks src.length * 3 - src.length)
      (numChunks src.length - 1) (filled src (i * 3)) i = .ok (filled src ((i + 1) * 3)) := by
  obtain ⟨hle, hlt⟩ := numChunks_bounds src.length
  have hchunk : ∀ j < 4, (encoded A src).getD (i * 4 + j) 0 = encodeChar A src i j := by
    intro j hj
    rw [getD_eq_getElem?_getD, getElem?_encoded A src hi hj, Option.getD_some]
  obtain ⟨hfirst, hsecond, hthird⟩ :
      (encodeVal src i 0 &&& 0x3f) <<< 2 ||| (encodeVal src i 1 &&& 0x30) >>> 4 = src.getD (i * 3) 0 ∧
      (encodeVal src i 1 &&& 0x0f) <<< 4 ||| (encodeVal src i 2 &&& 0x3c) >>> 2
        = src.getD (i * 3 + 1) 0 ∧
      (encodeVal src i 2 &&& 0x03) <<< 6 ||| encodeVal src i 3 &&& 0x3f
        = src.getD (i * 3 + 2) 0 := by
    refine ⟨eq_of_bits fun k hk => ?_, eq_of_bits fun k hk => ?_, eq_of_bits fun k hk => ?_⟩
    all_goals
      unfold encodeVal
      interval_cases k <;> simp
  unfold decodeChunk
  simp only [hchunk 0 (by decide), hchunk 1 (by decide), hchunk 2 (by decide),
    hchunk 3 (by decide), tableIndex_encodeChar A src (j := 0) (by decide),
    tableIndex_encodeChar A src (j := 1) (by decide), index_encodeChar A src (j := 2) (by decide),
    index_encodeChar A src (j := 3) (by decide)]
  change (put _ _ ((encodeVal src i 0 &&& _) <<< _ ||| (encodeVal src i 1 &&& _) >>> _) >>= _) = _
  rw [hfirst, put_filled (by simp [show i * 3 < src.length by omega])]
  change (putIf _ _ _ ((encodeVal src i 1 &&& _) <<< _ ||| _) >>= _) = _
  rw [putIf_filled (by omega) hsecond]
  rw [Nat.succ_mul]
  exact putIf_filled (by omega) hthird

/-- The padding starts right after the characters for the bytes of the source. -/
theorem idxOf?_pad : (encoded A src).idxOf? A.pad = if src.length = numChunks src.length * 3
    then none else some (src.length + numChunks src.length) := by
  obtain ⟨hle, hlt⟩ := numChunks_bounds src.length
  split
  next heq =>
    rw [idxOf?_eq_none_iff, encoded, mem_map]
    rintro ⟨k, hk, hpad⟩
    rw [mem_range] at hk
    rw [encodeChar_eq_pad_iff] at hpad
    omega
  next hne =>
    rw [idxOf?_eq_some_iff]
    simp only [encoded, getElem_map, getElem_range, encodeChar_eq_pad_iff]
    exact ⟨by simp; omega, by omega, fun k hk => by omega⟩

theorem padding_encoded :
    padding A (encoded A src) (numChunks src.length * 4)
      = numChunks src.length * 3 - src.length := by
  obtain ⟨hle, hlt⟩ := numChunks_bounds src.length
  rw [padding, idxOf?_pad]
  split_ifs with heq <;> simp only
  · omega
  · rw [Int.bmod_eq_of_le] <;> omega

theorem decode_encoded (h : src.length < 2 ^ 30) :
    decode A (some (encoded A src)) = .ok (src, src.length) := by
  obtain ⟨hle, hlt⟩ := numChunks_bounds src.length
  have hlen : Int.bmod (encoded A src).length (2 ^ 32) = numChunks src.length * 4 := by
    rw [length_encoded, Int.bmod_eq_of_le] <;> omega
  have hnumChunks : (numChunks src.length * 4 : Int).tdiv 4 = numChunks src.length :=
    Int.mul_tdiv_cancel _ (by decide)
  have hmod : (numChunks src.length * 4 : Int).tmod 4 = 0 := Int.mul_tmod_left ..
  have houtLen : ((numChunks src.length * 3 - (numChunks src.length * 3 - src.length) : Int)
      % 2 ^ 32).toNat = src.length := by
    omega
  have hloop := foldlM_range (fun i => filled src (i * 3)) fun i hi => decodeChunk_eq (A := A) hi
  have hstart : filled src (0 * 3) = replicate src.length 0 := by simp [filled]
  rw [hstart, filled_of_length_le hle] at hloop
  unfold decode
  simp only [hlen, hmod, ne_eq, not_true_eq_false, if_false, hnumChunks, padding_encoded]
  rw [houtLen, Int.toNat_natCast, hloop]
  rfl

theorem mem_of_mem_encoded {c : UInt8} (h : c ∈ encoded A src) : c ∈ A.pad :: A.table := by
  obtain ⟨k, -, rfl⟩ := mem_map.mp h
  unfold encodeChar
  split
  · exact mem_cons_self
  · exact mem_cons_of_mem _ (table_mem A src)

/-- `b` is written as a string of the alphabet, and read back from it. -/
def RoundTrips (enc : Bytes → Except Fault Bytes) (dec : Option Bytes → Except Fault (Bytes × Nat))
    (A : Alphabet) (b : Bytes) : Prop :=
  ∃ s, (enc b).map cstring = .ok s ∧ s.length = 4 * ((b.length + 2) / 3)
    ∧ (∀ c ∈ s, c ∈ A.pad :: A.table) ∧ dec (some s) = .ok (b, b.length)

theorem roundTrips (h : src.length < 2 ^ 30) : RoundTrips (encode A) (decode A) A src := by
  have hlength := numChunks_bounds src.length
  have hstring : cstring (encoded A src ++ [0]) = encoded A src :=
    cstring_append_zero (fun h => A.zero_notMem (mem_of_mem_encoded h)) []
  refine ⟨encoded A src, ?_, ?_, fun _ => mem_of_mem_encoded, decode_encoded h⟩
  · rw [encode_eq A src h, Except.map, hstring]
  · rw [length_encoded]
    omega

/-- The codecs invert on every byte string whose length keeps the sizes in range. -/
theorem codecs_invert (b : Bytes) (h : b.length < 2 ^ 30) :
    RoundTrips nexusBase64Encode nexusBase64Decode base64 b
      ∧ RoundTrips nexusAlt64Encode nexusAlt64Decode alt64 b :=
  ⟨roundTrips h, roundTrips h⟩

theorem codecs_invert_two : RoundTrips nexusBase64Encode nexusBase64Decode base64 [255, 7]
    ∧ RoundTrips nexusAlt64Encode nexusAlt64Decode alt64 [255, 7] :=
  codecs_invert [255, 7] (by decide)

end Nexus.Encode
