import Nexus.Files.Integrity

/-!
# Transfers that are given up

A seek of an encrypt transfer draws the key of its chunk anew, at once and in the
filenode, and the mac is only written when the chunk is complete.  A transfer that
ends before that has lost the key of the chunk.
-/

namespace Nexus.Files

open Stream List

/-- What a client does with an encrypt transfer. -/
inductive Op where
  | seek (offset : Nat) (drawn : BitVec 128 × BitVec 128)
  | update (input : Bytes)

def Op.event (id : Nat) : Op → Event
  | seek offset drawn => .seek id offset drawn
  | update input => .update id input

namespace State

/-- An encrypt transfer up to `file_crypto_finish`: the state before it, and the chunks that
were completed. -/
def transfer (g : Gcm) (s : State) (filesize : Nat) (drawn : Nat → BitVec 128 × BitVec 128)
    (ops : List Op) : Option (State × List Encryption) :=
  let started := s.fileEncryptStart filesize drawn
  started.1.run g [] (ops.map (Op.event started.2))

/-- The transfer has begun the chunk and not completed it. -/
def Unfinished (s : State) (id chunk : Nat) : Prop :=
  ∃ x, s.xferTable id = some x ∧ x.cryptoContext = some chunk ∧ x.chunkLeft ≠ 0

variable {g : Gcm} {s s' : State} {id : Nat} {x : XferContext} {buf : DataBuf}

/-! ## Calls of an encrypt transfer -/

/-- An update either leaves some of the chunk, or completes it and writes its mac. -/
theorem fileCryptoUpdate_encrypt (hx : s.xferTable id = some x) (hmode : x.mode = .encrypt)
    (hbuf : x.dataBuffer = some buf) {input : Bytes} {nbytes : Nat}
    (hsize : updateSize x buf input = some nbytes) :
    s.fileCryptoUpdate g id input =
      let written := dataBufWrite g .encrypt buf (input.take nbytes)
      if x.chunkLeft ≤ nbytes then
        let done : XferContext :=
          { x with
            cryptoContext := none, dataBuffer := none, chunkLeft := 0
            offset := x.offset + x.chunkLeft }
        (s.setChunkMac x (g.tag buf.key buf.iv written.2.pieces)).map fun s =>
          ({ s with filenode :=
              filenodeUpdateEncryptedPos s.filenode (x.offset + x.chunkLeft) }.putContext id done,
            true, written.1)
      else
        some (s.putContext id (advanced g x buf (input.take nbytes)), true, written.1) := by
  have hbound := updateSize_le hsize
  unfold fileCryptoUpdate
  simp only [hx, hbuf, hsize]
  by_cases hle : x.chunkLeft ≤ nbytes
  · obtain rfl : nbytes = x.chunkLeft := Nat.le_antisymm hbound.2 hle
    rw [if_pos hle, if_pos (Nat.sub_self _)]
    simp only [flushDataBuffer, hmode, Option.map_map, Nat.sub_self, setChunkMac]
    rfl
  · rw [if_neg hle, if_neg (by omega)]
    simp only [advanced, hmode, length_take_of_le hbound.1]

/-- A seek changes nothing, or forgets the chunk of the context, or draws the key of the
chunk that it goes to. -/
theorem fileCryptoSeek_encrypt (hx : s.xferTable id = some x) (hmode : x.mode = .encrypt)
    (hlog : s.filenode.log2chunksize = Filenode.globalLog2chunkSize) (offset : Nat)
    (drawn : BitVec 128 × BitVec 128) :
    (s.fileCryptoSeek id offset drawn).1 = s ∨
    (x.chunkLeft = 0 ∧
      (s.fileCryptoSeek id offset drawn).1 = s.putContext id { x with cryptoContext := none }) ∨
    ∃ chunk entry, x.chunkLeft = 0 ∧ offset = chunk * globalChunkSize ∧
      s.filenode.chunkList[chunk]? = some entry ∧
      (s.fileCryptoSeek id offset drawn).1 =
        { s with filenode :=
          { s.filenode with
            chunkList := s.filenode.chunkList.set chunk (cryptoCtxGenerate drawn) } }.putContext id
          { x with
            cryptoContext := some chunk
            dataBuffer := some ⟨drawn.1, drawn.2, []⟩
            offset
            chunkLeft := minInt (s.filenode.filesize - offset) globalChunkSize } := by
  unfold fileCryptoSeek
  simp only [hx]
  split_ifs with hleft hmultiple hbeyond
  · exact .inl rfl
  · exact .inl rfl
  · exact .inl rfl
  have hzero : x.chunkLeft = 0 := not_not.mp hleft
  obtain ⟨chunk, rfl⟩ := Nat.dvd_of_mod_eq_zero (not_not.mp hmultiple)
  rw [Nat.mul_comm]
  unfold setupDataBuffer filenodeGetChunk
  simp only [hmode, decide_true, if_true, getChunkNumber_chunk hlog]
  cases hentry : s.filenode.chunkList[chunk]? with
  | none => exact .inr (.inl ⟨hzero, rfl⟩)
  | some entry => exact .inr (.inr ⟨chunk, entry, hzero, rfl, hentry, rfl⟩)

/-! ## The chunks during a transfer -/

/-- The context of the chunk is the old one, or that of an encryption which the transfer has
completed. -/
def Kept (g : Gcm) (encryptions : List Encryption) (entry : ChunkEntry) (f : Filenode)
    (chunk : Nat) : Prop :=
  f.chunkList[chunk]? = some entry ∨
    ∃ e ∈ encryptions, e.chunk = chunk ∧ f.chunkList[chunk]? = some ⟨e.key, e.iv, e.mac g⟩

/-- An open encrypt transfer of a file that was `f` before; keys that are drawn are `fresh`. -/
structure Transferring (g : Gcm) (fresh : BitVec 128 → Prop) (f : Filenode) (filesize : Nat)
    (s : State) (id : Nat) (encryptions : List Encryption) : Prop where
  log : s.filenode.log2chunksize = Filenode.globalLog2chunkSize
  size : s.filenode.filesize = filesize
  small : filesize < 2 ^ 31
  context : ∃ x, s.xferTable id = some x ∧ x.mode = .encrypt
  begun : ∀ x chunk, s.xferTable id = some x → x.cryptoContext = some chunk → x.chunkLeft ≠ 0 →
    ∃ buf, x.dataBuffer = some buf ∧ fresh buf.key ∧
      s.filenode.chunkList[chunk]? = some ⟨buf.key, buf.iv, 0⟩
  /-- The chunk at the end of the file has no data. -/
  empty : ∀ x chunk, s.xferTable id = some x → x.cryptoContext = some chunk → x.chunkLeft = 0 →
    filesize ≤ chunk * globalChunkSize
  chunks : ∀ chunk entry, chunk * globalChunkSize < filesize →
    f.chunkList[chunk]? = some entry → chunk < s.filenode.chunkList.length →
      Kept g encryptions entry s.filenode chunk ∨ s.Unfinished id chunk

variable {fresh : BitVec 128 → Prop} {f : Filenode} {filesize : Nat}
  {encryptions : List Encryption}

theorem Transferring.not_unfinished (hx : s.xferTable id = some x) (hleft : x.chunkLeft = 0)
    (chunk : Nat) : ¬ s.Unfinished id chunk := by
  rintro ⟨x', hx', -, hne⟩
  cases hx.symm.trans hx'
  exact hne hleft

theorem Transferring.seek (h : Transferring g fresh f filesize s id encryptions) (offset : Nat)
    {drawn : BitVec 128 × BitVec 128} (hfresh : fresh drawn.1) :
    Transferring g fresh f filesize (s.fileCryptoSeek id offset drawn).1 id encryptions := by
  obtain ⟨x, hx, hmode⟩ := h.context
  obtain hsame | ⟨hleft, hseek⟩ | ⟨chunk, old, hleft, rfl, hold, hseek⟩ :=
    fileCryptoSeek_encrypt hx hmode h.log offset drawn
  · rw [hsame]
    exact h
  · rw [hseek]
    refine ⟨h.log, h.size, h.small, ⟨_, putContext_xferTable_self _ _ _, hmode⟩, ?_, ?_, ?_⟩
    · intro x' chunk hx' hchunk
      rw [putContext_xferTable_self] at hx'
      cases hx'
      cases hchunk
    · intro x' chunk hx' hchunk
      rw [putContext_xferTable_self] at hx'
      cases hx'
      cases hchunk
    · intro chunk entry hdata hentry hlt
      exact (h.chunks chunk entry hdata hentry hlt).imp_right fun hun =>
        absurd hun (Transferring.not_unfinished hx hleft chunk)
  · -- the key of the chunk is drawn, and the chunk is begun
    rw [hseek]
    have hlt : chunk < s.filenode.chunkList.length := (List.getElem?_eq_some_iff.mp hold).1
    have hsmall : s.filenode.filesize < 2 ^ 31 := h.size ▸ h.small
    refine ⟨h.log, h.size, h.small, ⟨_, putContext_xferTable_self _ _ _, hmode⟩, ?_, ?_, ?_⟩
    · intro x' chunk' hx' hchunk hne
      rw [putContext_xferTable_self] at hx'
      cases hx'
      cases hchunk
      exact ⟨_, rfl, hfresh, by simp [hlt, cryptoCtxGenerate]⟩
    · intro x' chunk' hx' hchunk hzero
      rw [putContext_xferTable_self] at hx'
      cases hx'
      cases hchunk
      have hcs : 0 < globalChunkSize := Nat.two_pow_pos _
      rw [← h.size]
      dsimp only at hzero
      rw [show minInt _ _ = _ from chunkLength_eq hsmall chunk] at hzero
      omega
    · intro chunk' entry hdata hentry hlt'
      by_cases heq : chunk = chunk'
      · subst heq
        refine .inr ⟨_, putContext_xferTable_self _ _ _, rfl, ?_⟩
        have hcs : 0 < globalChunkSize := Nat.two_pow_pos _
        rw [← h.size] at hdata
        dsimp only
        rw [show minInt _ _ = _ from chunkLength_eq hsmall chunk]
        omega
      · rw [putContext_filenode, length_set] at hlt'
        have hkept := (h.chunks chunk' entry hdata hentry hlt').resolve_right
          (Transferring.not_unfinished hx hleft chunk')
        refine .inl ?_
        simpa only [Kept, putContext_filenode, getElem?_set_ne heq] using hkept

theorem Kept.mono {entry : ChunkEntry} {f' : Filenode} {chunk : Nat} {new : List Encryption}
    (h : Kept g encryptions entry f' chunk) : Kept g (new ++ encryptions) entry f' chunk :=
  h.imp_right fun ⟨e, he, hchunk⟩ => ⟨e, mem_append_right _ he, hchunk⟩

theorem Transferring.update (h : Transferring g fresh f filesize s id encryptions) {input : Bytes}
    {e : Option Encryption} (hstep : s.step g (.update id input) = some (s', e)) :
    Transferring g fresh f filesize s' id (e.toList ++ encryptions) := by
  obtain ⟨x, hx, hmode⟩ := h.context
  obtain ⟨⟨s₁, ok, out⟩, hupdate, hpair⟩ := Option.map_eq_some_iff.mp hstep
  cases hpair
  cases hbuf : x.dataBuffer with
  | none =>
    rw [completed_none hx (.inr (by simp [hbuf]))]
    simp only [fileCryptoUpdate, hx, hbuf] at hupdate
    cases hupdate
    exact h
  | some buf =>
  cases hsize : updateSize x buf input with
  | none =>
    rw [completed_none hx (.inr (by simp [hbuf, hsize]))]
    simp only [fileCryptoUpdate, hx, hbuf, hsize] at hupdate
    cases hupdate
    exact h
  | some nbytes =>
    have hbound := updateSize_le hsize
    rw [fileCryptoUpdate_encrypt hx hmode hbuf hsize] at hupdate
    dsimp only at hupdate
    split at hupdate
    next hfull =>
      obtain rfl : nbytes = x.chunkLeft := Nat.le_antisymm hbound.2 hfull
      obtain ⟨s₂, hset, hpair⟩ := Option.map_eq_some_iff.mp hupdate
      cases hpair
      obtain ⟨chunk, hchunk, hset⟩ := Option.bind_eq_some_iff.mp hset
      obtain ⟨old, hold, rfl⟩ := Option.map_eq_some_iff.mp hset
      have hlt : chunk < s.filenode.chunkList.length := (List.getElem?_eq_some_iff.mp hold).1
      rw [completed_full hx hmode hchunk hbuf hsize]
      simp only [filenodeUpdateEncryptedPos_eq]
      refine ⟨h.log, h.size, h.small, ⟨_, putContext_xferTable_self _ _ _, hmode⟩, ?_, ?_, ?_⟩
      · intro x' chunk' hx' hchunk'
        rw [putContext_xferTable_self] at hx'
        cases hx'
        cases hchunk'
      · intro x' chunk' hx' hchunk'
        rw [putContext_xferTable_self] at hx'
        cases hx'
        cases hchunk'
      · intro chunk' entry hdata hentry hlt'
        refine .inl ?_
        dsimp only [putContext_filenode] at hlt'
        by_cases heq : chunk = chunk'
        · -- the chunk had data, so it was begun by this transfer
          subst heq
          have hne : x.chunkLeft ≠ 0 := fun hzero => by
            have hempty := h.empty x chunk hx hchunk hzero
            omega
          obtain ⟨buf', hbuf', -, hbegun⟩ := h.begun x chunk hx hchunk hne
          cases hbuf.symm.trans hbuf'
          cases hold.symm.trans hbegun
          exact .inr ⟨_, mem_append_left _ (mem_singleton_self _), rfl,
            by simp [hlt, Encryption.mac]⟩
        · rw [length_set] at hlt'
          have hnot : ¬ s.Unfinished id chunk' := by
            rintro ⟨x', hx', hchunk', -⟩
            cases hx.symm.trans hx'
            exact heq (Option.some.inj (hchunk.symm.trans hchunk'))
          have hkept := (h.chunks chunk' entry hdata hentry hlt').resolve_right hnot
          refine Kept.mono ?_
          simpa only [Kept, putContext_filenode, getElem?_set_ne heq] using hkept
    next hpart =>
      cases hupdate
      have hne : nbytes ≠ x.chunkLeft := by omega
      have hlength : (input.take nbytes).length = nbytes := length_take_of_le hbound.1
      have hnone : s.completed g id input = none :=
        completed_none hx (.inr (by simp [hbuf, hsize, hne]))
      rw [hnone]
      refine ⟨h.log, h.size, h.small, ⟨_, putContext_xferTable_self _ _ _, hmode⟩, ?_, ?_, ?_⟩
      · intro x' chunk hx' hchunk _
        rw [putContext_xferTable_self] at hx'
        cases hx'
        obtain ⟨buf', hbuf', hkey, hbegun⟩ := h.begun x chunk hx hchunk (by omega)
        cases hbuf.symm.trans hbuf'
        exact ⟨_, rfl, hkey, hbegun⟩
      · intro x' chunk hx' hchunk hzero
        rw [putContext_xferTable_self] at hx'
        cases hx'
        simp only [advanced, hlength] at hzero
        omega
      · intro chunk entry hdata hentry hlt
        refine (h.chunks chunk entry hdata hentry hlt).imp_right ?_
        rintro ⟨x', hx', hchunk, hne⟩
        cases hx.symm.trans hx'
        exact ⟨_, putContext_xferTable_self _ _ _, hchunk, by simp only [advanced, hlength]; omega⟩

theorem Transferring.run {ops : List Op} (h : Transferring g fresh f filesize s id encryptions)
    (hfresh : ∀ offset drawn, Op.seek offset drawn ∈ ops → fresh drawn.1)
    {encryptions' : List Encryption}
    (hrun : s.run g encryptions (ops.map (Op.event id)) = some (s', encryptions')) :
    Transferring g fresh f filesize s' id encryptions' := by
  induction ops generalizing s encryptions with
  | nil =>
    cases hrun
    exact h
  | cons op ops ih =>
    have hrest : ∀ offset drawn, Op.seek offset drawn ∈ ops → fresh drawn.1 :=
      fun offset drawn hmem => hfresh offset drawn (mem_cons_of_mem _ hmem)
    rw [map_cons] at hrun
    unfold State.run at hrun
    split at hrun
    · cases hrun
    next s₁ e hstep =>
      cases op with
      | seek offset drawn =>
        cases hstep
        exact ih (h.seek offset (hfresh offset drawn mem_cons_self)) hrest hrun
      | update input => exact ih (h.update hstep) hrest hrun

/-- The chunks that are left after a change of the size are the old ones. -/
theorem chunkList_setFilesize {f : Filenode} {filesize : Nat} {generated : Nat → ChunkEntry}
    {chunk : Nat} {entry : ChunkEntry} (hentry : f.chunkList[chunk]? = some entry)
    (hlt : chunk < (f.setFilesize filesize generated).chunkList.length) :
    (f.setFilesize filesize generated).chunkList[chunk]? = some entry := by
  have hold : chunk < f.chunkList.length := (List.getElem?_eq_some_iff.mp hentry).1
  revert hlt
  unfold Filenode.setFilesize
  split
  · exact fun _ => hentry
  dsimp only
  split
  · exact fun _ => hentry
  · intro hlt
    simp only [length_append, length_take, length_map, length_range] at hlt
    rw [getElem?_append_left (by rw [length_take]; omega),
      getElem?_take_of_lt (by omega)]
    exact hentry

theorem filesize_setFilesize (f : Filenode) (filesize : Nat) (generated : Nat → ChunkEntry) :
    (f.setFilesize filesize generated).filesize = filesize := by
  unfold Filenode.setFilesize
  split
  next h => exact h
  dsimp only
  split <;> rfl

theorem transferring_start (hlog : s.filenode.log2chunksize = Filenode.globalLog2chunkSize)
    {filesize : Nat} (hsmall : filesize < 2 ^ 31) (drawn : Nat → BitVec 128 × BitVec 128) :
    Transferring g fresh s.filenode filesize (s.fileEncryptStart filesize drawn).1
      (s.xferCounter + 1) [] := by
  have hx : (s.fileEncryptStart filesize drawn).1.xferTable (s.xferCounter + 1) =
      some ⟨.encrypt, 0, 0, none, none⟩ := by
    simp [fileEncryptStart, fileCryptoNew]
  refine ⟨(refreshed_setFilesize _ _ _).log.trans hlog, filesize_setFilesize _ _ _, hsmall,
    ⟨_, hx, rfl⟩, ?_, ?_, ?_⟩
  · intro x chunk hx' hchunk
    cases hx.symm.trans hx'
    cases hchunk
  · intro x chunk hx' hchunk
    cases hx.symm.trans hx'
    cases hchunk
  · intro chunk entry _ hentry hlt
    exact .inl (.inl (chunkList_setFilesize hentry hlt))

end State

/-- A file of one byte. -/
def byteFile : State where
  filenode :=
    { Filenode.create 0 0 with
      filesize := 1, encryptedLength := 1, nchunks := 1, chunkList := [⟨0, 0, 1⟩] }
  stored := .create 0 0
  xferTable := fun _ => none
  xferCounter := 0

end Nexus.Files
