import Nexus.Files.Transfer

/-!
# Reading a chunk

A chunk is read by a seek to its start and updates until nothing is left of it.  The
ciphertext comes in pieces of any sizes.  What a read that succeeds has put out is the
decryption of what it was given, and if the chunk is one that is verified, its mac is
the one of the filenode.
-/

namespace Nexus.Files

open Stream List Option

/-- The decryption of pieces, each from the start of a block on. -/
def decipher (keystream : Nat → UInt8) : Nat → List Bytes → Bytes
  | _, [] => []
  | pos, piece :: pieces =>
    mask keystream pos piece ++ decipher keystream (pos + blockBytes piece.length) pieces

theorem length_blocks_append (pieces : List Bytes) (piece : Bytes) :
    (blocks (pieces ++ [piece])).length = (blocks pieces).length + blockBytes piece.length := by
  have hle : piece.length ≤ blockBytes piece.length := by
    unfold blockBytes
    omega
  rw [blocks, blocks, flatMap_append, flatMap_singleton, length_append, Codec.length_padTo hle]

namespace State

/-- Updates that all return 0: the state after them, and all that they put out. -/
def fileCryptoUpdates (g : Gcm) (id : Nat) : List Bytes → State → Option (State × Bytes)
  | [], s => some (s, [])
  | input :: inputs, s =>
    match s.fileCryptoUpdate g id input with
    | some (s, true, output) =>
      (fileCryptoUpdates g id inputs s).map fun r => (r.1, output ++ r.2)
    | _ => none

/-- Read a chunk to its end in a transfer of its own; all calls return 0. -/
def readChunk (g : Gcm) (s : State) (chunk : Nat) (inputs : List Bytes) : Option Bytes :=
  let started := s.fileDecryptStart
  let sought := started.1.fileCryptoSeek started.2 (chunk * globalChunkSize) (0, 0)
  if sought.2 then
    match sought.1.fileCryptoUpdates g started.2 inputs with
    | none => none
    | some r =>
      if (r.1.xferTable started.2).map XferContext.chunkLeft = some 0 then some r.2 else none
  else none

/-- How much of the file is in the chunk, as `__setup_data_buffer` computes it. -/
def chunkLength (s : State) (chunk : Nat) : Nat :=
  minInt (s.filenode.filesize - chunk * globalChunkSize) globalChunkSize

variable {g : Gcm} {s s' : State} {id : Nat} {x : XferContext} {buf : DataBuf}

@[simp] theorem putContext_xferTable_self (s : State) (id : Nat) (x : XferContext) :
    (s.putContext id x).xferTable id = some x := by
  simp [putContext]

@[simp] theorem putContext_filenode (s : State) (id : Nat) (x : XferContext) :
    (s.putContext id x).filenode = s.filenode := rfl

/-- The context after some bytes, while the chunk is not full. -/
def advanced (g : Gcm) (x : XferContext) (buf : DataBuf) (input : Bytes) : XferContext :=
  { x with
    dataBuffer := some (dataBufWrite g x.mode buf input).2
    chunkLeft := x.chunkLeft - input.length
    offset := x.offset + input.length }

/-! ## Updates of a decryption -/

variable {inputs : List Bytes} {nbytes : Nat}

/-- An update either leaves some of the chunk, or ends it and takes its verdict. -/
theorem fileCryptoUpdate_decrypt (hx : s.xferTable id = some x) (hmode : x.mode = .decrypt)
    (hbuf : x.dataBuffer = some buf) {input : Bytes}
    (hsize : updateSize x buf input = some nbytes) :
    s.fileCryptoUpdate g id input =
      let c := input.take nbytes
      let output := mask (g.keystream buf.key buf.iv) (blocks buf.pieces).length c
      if x.chunkLeft ≤ nbytes then
        let done : XferContext := { advanced g x buf c with cryptoContext := none, dataBuffer := none }
        if x.offset + c.length < s.filenode.encryptedLength then
          (s.chunkMac x).map fun mac =>
            (s.putContext id done, decide (mac = g.tag buf.key buf.iv (buf.pieces ++ [c])), output)
        else some (s.putContext id done, true, output)
      else some (s.putContext id (advanced g x buf c), true, output) := by
  have hlength : (input.take nbytes).length = nbytes := length_take_of_le (updateSize_le hsize).1
  unfold fileCryptoUpdate
  simp only [hx, hbuf, hsize]
  by_cases hle : x.chunkLeft ≤ nbytes
  · rw [if_pos hle, if_pos (by omega)]
    simp only [flushDataBuffer, hmode, hlength, advanced, dataBufWrite, chunkMac, reduceCtorEq,
      if_false]
    split
    · simp only [Option.map_map]
      rfl
    · rfl
  · rw [if_neg hle, if_neg (by omega)]
    simp only [hlength, advanced, dataBufWrite]

/-- Nothing is updated once a chunk is ended, or if what is left of it is negative as an
`int`. -/
theorem fileCryptoUpdates_ended (hx : s.xferTable id = some x)
    (hstop : x.dataBuffer = none ∨ 2 ^ 31 ≤ x.chunkLeft % 2 ^ 32)
    {r : State × Bytes} (h : s.fileCryptoUpdates g id inputs = some r) :
    r = (s, []) := by
  cases inputs with
  | nil => exact (Option.some.inj h).symm
  | cons input inputs =>
    simp only [fileCryptoUpdates, fileCryptoUpdate, hx] at h
    cases hbuf : x.dataBuffer with
    | none =>
      simp only [hbuf] at h
      cases h
    | some buf =>
      have hneg := hstop.resolve_left (by simp [hbuf])
      simp only [hbuf, updateSize_negative hneg] at h
      cases h

theorem chunkMac_advanced (input : Bytes) :
    (s.putContext id (advanced g x buf input)).chunkMac (advanced g x buf input) = s.chunkMac x :=
  rfl

theorem fileCryptoUpdates_inv {out : Bytes} (hx : s.xferTable id = some x)
    (hmode : x.mode = .decrypt) (hbuf : x.dataBuffer = some buf) (hleft : 0 < x.chunkLeft)
    (h : s.fileCryptoUpdates g id inputs = some (s', out))
    (hdone : (s'.xferTable id).map XferContext.chunkLeft = some 0) :
    ∃ pieces : List Bytes, pieces.flatten.length = x.chunkLeft ∧
      out = decipher (g.keystream buf.key buf.iv) (blocks buf.pieces).length pieces ∧
      (x.offset + x.chunkLeft < s.filenode.encryptedLength →
        s.chunkMac x = some (g.tag buf.key buf.iv (buf.pieces ++ pieces))) := by
  induction inputs generalizing s x buf out with
  | nil =>
    cases h
    rw [hx] at hdone
    have hzero : x.chunkLeft = 0 := Option.some.inj hdone
    omega
  | cons input inputs ih =>
    unfold fileCryptoUpdates at h
    cases hsize : updateSize x buf input with
    | none =>
      simp only [fileCryptoUpdate, hx, hbuf, hsize] at h
      cases h
    | some nbytes =>
      have hbound := updateSize_le hsize
      have hlength : (input.take nbytes).length = nbytes := length_take_of_le hbound.1
      rw [fileCryptoUpdate_decrypt hx hmode hbuf hsize] at h
      split at h
      next s₁ o₁ hupdate =>
        obtain ⟨⟨s₂, o₂⟩, hrest, hpair⟩ := map_eq_some_iff.mp h
        cases hpair
        dsimp only at hupdate
        rw [hlength] at hupdate
        by_cases hle : x.chunkLeft ≤ nbytes
        · -- the chunk ends here, so nothing comes after
          obtain rfl : nbytes = x.chunkLeft := Nat.le_antisymm hbound.2 hle
          rw [if_pos hle] at hupdate
          have hpiece : [input.take x.chunkLeft].flatten.length = x.chunkLeft := by
            simpa using hbound.1
          have hout := (append_nil (mask (g.keystream buf.key buf.iv) (blocks buf.pieces).length
            (input.take x.chunkLeft)))
          split at hupdate
          next hverified =>
            obtain ⟨mac, hmac, hpair⟩ := map_eq_some_iff.mp hupdate
            simp only [Prod.mk.injEq, decide_eq_true_eq] at hpair
            obtain ⟨rfl, rfl, rfl⟩ := hpair
            cases fileCryptoUpdates_ended (putContext_xferTable_self _ _ _) (.inl rfl) hrest
            exact ⟨[input.take x.chunkLeft], hpiece, rfl, fun _ => hmac⟩
          next hskipped =>
            cases hupdate
            cases fileCryptoUpdates_ended (putContext_xferTable_self _ _ _) (.inl rfl) hrest
            exact ⟨[input.take x.chunkLeft], hpiece, rfl, fun hlt => absurd hlt hskipped⟩
        · rw [if_neg hle] at hupdate
          cases hupdate
          have hx' := putContext_xferTable_self s id (advanced g x buf (input.take nbytes))
          obtain ⟨pieces, hc, hout, hmac⟩ :=
            ih hx' hmode rfl (by simp only [advanced, hlength]; omega) hrest
          simp only [advanced, dataBufWrite, hmode, reduceCtorEq, if_false, hlength,
            length_blocks_append] at hc hout
          refine ⟨input.take nbytes :: pieces, ?_, ?_, fun hlt => ?_⟩
          · rw [flatten_cons, length_append, hlength]
            omega
          · rw [hout, decipher, hlength]
          · rw [chunkMac_advanced] at hmac
            simp only [advanced, dataBufWrite, hmode, reduceCtorEq, if_false, append_assoc,
              hlength] at hmac
            exact hmac (by rw [putContext_filenode]; omega)
      next => cases h

/-- The pieces of a ciphertext of the right length are decrypted, if the mac is right
where it is verified. -/
theorem fileCryptoUpdates_of_pieces (hx : s.xferTable id = some x) (hmode : x.mode = .decrypt)
    (hbuf : x.dataBuffer = some buf) (hleft : 0 < x.chunkLeft)
    (hroom : buf.pieces.flatten.length + x.chunkLeft ≤ globalChunkSize)
    (hlength : inputs.flatten.length = x.chunkLeft) (hpieces : [] ∉ inputs)
    (hmac : x.offset + x.chunkLeft < s.filenode.encryptedLength →
      s.chunkMac x = some (g.tag buf.key buf.iv (buf.pieces ++ inputs))) :
    ∃ s', s.fileCryptoUpdates g id inputs =
        some (s', decipher (g.keystream buf.key buf.iv) (blocks buf.pieces).length inputs) ∧
      (s'.xferTable id).map XferContext.chunkLeft = some 0 := by
  induction inputs generalizing s x buf with
  | nil =>
    rw [← hlength] at hleft
    cases hleft
  | cons input inputs ih =>
    rw [flatten_cons, length_append] at hlength
    have hcs : globalChunkSize = 2 ^ 20 := rfl
    have hsize : updateSize x buf input = some input.length := by
      rw [updateSize_eq (by omega) hroom, Nat.min_eq_left (by omega)]
    unfold fileCryptoUpdates
    rw [fileCryptoUpdate_decrypt hx hmode hbuf hsize, take_length]
    by_cases hle : x.chunkLeft ≤ input.length
    · -- no piece is left
      have hnil : inputs = [] := by
        cases inputs with
        | nil => rfl
        | cons next inputs =>
          have hnext : next ≠ [] := fun h => hpieces (by simp [h])
          have hpos := length_pos_of_ne_nil hnext
          rw [flatten_cons, length_append] at hlength
          omega
      subst hnil
      have hinput : input.length = x.chunkLeft := by simpa using hlength
      dsimp only
      rw [if_pos hle]
      by_cases hverified : x.offset + input.length < s.filenode.encryptedLength
      · rw [if_pos hverified, hmac (by omega), map_some]
        simp only [decide_true, fileCryptoUpdates, map_some, append_nil]
        exact ⟨_, by rw [decipher, decipher, append_nil], by simp [advanced, hinput]⟩
      · rw [if_neg hverified]
        simp only [fileCryptoUpdates, map_some, append_nil]
        exact ⟨_, by rw [decipher, decipher, append_nil], by simp [advanced, hinput]⟩
    · dsimp only
      rw [if_neg hle]
      have hx' := putContext_xferTable_self s id (advanced g x buf input)
      have hbuf' : (dataBufWrite g x.mode buf input).2 =
          { buf with pieces := buf.pieces ++ [input] } := by
        simp [dataBufWrite, hmode]
      obtain ⟨s', hrun, hdone⟩ := ih hx' hmode rfl (by simp only [advanced]; omega)
        (by simp only [advanced, hbuf', flatten_append, flatten_cons, flatten_nil, append_nil,
              length_append]; omega)
        (by simp only [advanced]; omega) (fun h => hpieces (mem_cons_of_mem _ h)) (by
          intro hlt
          rw [chunkMac_advanced, hbuf', append_assoc]
          simp only [advanced, putContext_filenode] at hlt
          exact hmac (by omega))
      refine ⟨s', ?_, hdone⟩
      dsimp only
      rw [hrun, hbuf', decipher, length_blocks_append]
      rfl

/-! ## Whole chunks -/

/-- A transfer that has been sought to the start of a chunk. -/
def opened (s : State) (chunk : Nat) (entry : ChunkEntry) : State :=
  s.fileDecryptStart.1.putContext (s.xferCounter + 1)
    ⟨.decrypt, chunk * globalChunkSize, s.chunkLength chunk, some chunk,
      some ⟨entry.key, entry.iv, []⟩⟩

variable {chunk : Nat} {inputs : List Bytes}

theorem getChunkNumber_chunk {f : Filenode} (hlog : f.log2chunksize = Filenode.globalLog2chunkSize) :
    f.getChunkNumber (chunk * globalChunkSize) = chunk := by
  rw [Filenode.getChunkNumber_eq, Filenode.chunksize, hlog]
  exact Nat.mul_div_cancel _ (Nat.two_pow_pos _)

variable {entry : ChunkEntry}

/-- What is left of a file of less than 2 GiB. -/
theorem chunkLength_eq (hsize : s.filenode.filesize < 2 ^ 31) (chunk : Nat) :
    s.chunkLength chunk =
      min (s.filenode.filesize - chunk * globalChunkSize) globalChunkSize :=
  minInt_of_lt (by omega) (by decide)

theorem lt_filesize_of_chunkLength_pos (hpos : 0 < s.chunkLength chunk) :
    chunk * globalChunkSize < s.filenode.filesize := by
  by_contra hnot
  rw [chunkLength, Nat.sub_eq_zero_of_le (by omega)] at hpos
  exact absurd hpos (by decide)

theorem chunkLength_negative (h : globalChunkSize < s.chunkLength chunk) :
    2 ^ 31 ≤ s.chunkLength chunk % 2 ^ 32 :=
  (minInt_le _ _).elim (fun hle => absurd h hle.2.not_gt) And.right

section

variable (hlog : s.filenode.log2chunksize = Filenode.globalLog2chunkSize)
include hlog

theorem fileCryptoSeek_opened (hle : chunk * globalChunkSize ≤ s.filenode.filesize)
    (hentry : s.filenode.chunkList[chunk]? = some entry) :
    s.fileDecryptStart.1.fileCryptoSeek (s.xferCounter + 1) (chunk * globalChunkSize) (0, 0) =
      (s.opened chunk entry, true) := by
  simp [fileCryptoSeek, fileDecryptStart, fileCryptoNew, setupDataBuffer, filenodeGetChunk,
    getChunkNumber_chunk hlog, hentry, Nat.not_lt.mpr hle, opened, putContext, chunkLength]

theorem fileCryptoSeek_missing (hentry : s.filenode.chunkList[chunk]? = none) :
    (s.fileDecryptStart.1.fileCryptoSeek (s.xferCounter + 1) (chunk * globalChunkSize) (0, 0)).2 =
      false := by
  simp only [fileCryptoSeek, fileDecryptStart, fileCryptoNew, setupDataBuffer, filenodeGetChunk,
    getChunkNumber_chunk hlog, hentry, Function.update_self]
  split_ifs <;> rfl

theorem readChunk_opened (hle : chunk * globalChunkSize ≤ s.filenode.filesize)
    (hentry : s.filenode.chunkList[chunk]? = some entry) :
    s.readChunk g chunk inputs =
      match (s.opened chunk entry).fileCryptoUpdates g (s.xferCounter + 1) inputs with
      | none => none
      | some r =>
        if (r.1.xferTable (s.xferCounter + 1)).map XferContext.chunkLeft = some 0 then some r.2
        else none := by
  unfold readChunk
  dsimp only
  rw [show s.fileDecryptStart.2 = s.xferCounter + 1 from rfl, fileCryptoSeek_opened hlog hle hentry]
  rfl

theorem readChunk_inv (hpos : 0 < s.chunkLength chunk) {out : Bytes}
    (h : s.readChunk g chunk inputs = some out) :
    ∃ entry pieces, s.filenode.chunkList[chunk]? = some entry ∧
      out = decipher (g.keystream entry.key entry.iv) 0 pieces ∧
      (chunk * globalChunkSize + s.chunkLength chunk < s.filenode.encryptedLength →
        entry.mac = g.tag entry.key entry.iv pieces) := by
  have hle := (lt_filesize_of_chunkLength_pos hpos).le
  cases hentry : s.filenode.chunkList[chunk]? with
  | none =>
    unfold readChunk at h
    dsimp only at h
    rw [show s.fileDecryptStart.2 = s.xferCounter + 1 from rfl,
      fileCryptoSeek_missing hlog hentry] at h
    cases h
  | some entry =>
    rw [readChunk_opened hlog hle hentry] at h
    split at h
    next => cases h
    next r hrun =>
      split at h
      next hdone =>
        cases h
        obtain ⟨pieces, -, hout, hmac⟩ :=
          fileCryptoUpdates_inv (putContext_xferTable_self _ _ _) rfl rfl hpos hrun hdone
        refine ⟨entry, pieces, rfl, hout, fun hlt => ?_⟩
        have hchunk := hmac hlt
        simp only [chunkMac, opened, putContext_filenode, bind_some] at hchunk
        rw [show s.fileDecryptStart.1.filenode = s.filenode from rfl, hentry] at hchunk
        exact Option.some.inj hchunk
      next => cases h

theorem readChunk_negative (hneg : globalChunkSize < s.chunkLength chunk) :
    s.readChunk g chunk inputs = none := by
  have hpos : 0 < s.chunkLength chunk := Nat.zero_lt_of_lt hneg
  cases hread : s.readChunk g chunk inputs with
  | none => rfl
  | some out =>
    obtain ⟨entry, -, hentry, -⟩ := readChunk_inv hlog hpos hread
    rw [readChunk_opened hlog (lt_filesize_of_chunkLength_pos hpos).le hentry] at hread
    split at hread
    next => cases hread
    next r hrun =>
      cases fileCryptoUpdates_ended (putContext_xferTable_self _ _ _)
        (.inr (chunkLength_negative hneg)) hrun
      simp [opened, hpos.ne'] at hread

/-- A read of a chunk in pieces succeeds, if the mac is right where it is verified. -/
theorem readChunk_of_pieces (hpos : 0 < s.chunkLength chunk)
    (hroom : s.chunkLength chunk ≤ globalChunkSize)
    (hentry : s.filenode.chunkList[chunk]? = some entry)
    (hlength : inputs.flatten.length = s.chunkLength chunk) (hpieces : [] ∉ inputs)
    (hmac : chunk * globalChunkSize + s.chunkLength chunk < s.filenode.encryptedLength →
      entry.mac = g.tag entry.key entry.iv inputs) :
    s.readChunk g chunk inputs = some (decipher (g.keystream entry.key entry.iv) 0 inputs) := by
  have hle := (lt_filesize_of_chunkLength_pos hpos).le
  obtain ⟨s', hrun, hdone⟩ := fileCryptoUpdates_of_pieces (s := s.opened chunk entry)
    (putContext_xferTable_self _ _ _) rfl rfl hpos (by simpa using hroom) hlength hpieces
    (g := g) (by
      intro hlt
      simp only [chunkMac, opened, putContext_filenode, bind_some]
      rw [show s.fileDecryptStart.1.filenode = s.filenode from rfl, hentry, map_some,
        hmac hlt]
      rfl)
  rw [readChunk_opened hlog hle hentry, hrun]
  exact if_pos hdone

end

end State

end Nexus.Files
