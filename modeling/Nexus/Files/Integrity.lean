import Nexus.Files.Read

/-!
# Integrity of file data

A file is written by any number of encrypt transfers, interleaved in any way, and the
chunks that they complete are recorded.  A chunk is verified if more than it has been
encrypted, so the last chunk of a file is not.  Reading a verified chunk gives what was
last encrypted for it, whatever the datastore supplies; reading any other chunk gives
what the datastore makes of it.
-/

namespace Nexus.Files

open Stream List

/-- A chunk that a transfer has encrypted to its end. -/
structure Encryption where
  chunk : Nat
  key : BitVec 128
  iv : BitVec 128
  /-- The ciphertext, by updates. -/
  pieces : List Bytes
  deriving DecidableEq

namespace Encryption

def plaintext (g : Gcm) (e : Encryption) : Bytes :=
  decipher (g.keystream e.key e.iv) 0 e.pieces

def mac (g : Gcm) (e : Encryption) : Mac := g.tag e.key e.iv e.pieces

/-- The mac is one of nothing else. -/
def Binds (g : Gcm) (e : Encryption) : Prop :=
  ∀ key iv pieces, g.tag key iv pieces = e.mac g →
    decipher (g.keystream key iv) 0 pieces = e.plaintext g

end Encryption

/-- The last encryption of a chunk; the newest is the first of the list. -/
def lastEncryption (encryptions : List Encryption) (chunk : Nat) : Option Encryption :=
  encryptions.find? fun e => e.chunk = chunk

namespace State

/-- A new file. -/
def create (rootUuid myUuid : Uuid) : State where
  filenode := .create rootUuid myUuid
  stored := .create rootUuid myUuid
  xferTable := fun _ => none
  xferCounter := 0

/-- The encryption that an update completes. -/
def completed (g : Gcm) (s : State) (id : Nat) (input : Bytes) : Option Encryption :=
  match s.xferTable id with
  | none => none
  | some x =>
    match x.mode, x.cryptoContext, x.dataBuffer with
    | .encrypt, some chunk, some buf =>
      if updateSize x buf input = some x.chunkLeft then
        let written := dataBufWrite g .encrypt buf (input.take x.chunkLeft)
        some ⟨chunk, buf.key, buf.iv, written.2.pieces⟩
      else none
    | _, _, _ => none

end State

/-- A call of a client. -/
inductive Event where
  | encryptStart (filesize : Nat) (drawn : Nat → BitVec 128 × BitVec 128)
  | decryptStart
  | truncate (size : Nat) (drawn : Nat → BitVec 128 × BitVec 128) (ok : Bool)
  | seek (id offset : Nat) (drawn : BitVec 128 × BitVec 128)
  | update (id : Nat) (input : Bytes)
  | finish (id : Nat) (ok : Bool)

/-- A call, if it returns, and the chunks that it completes. -/
def State.step (g : Gcm) (s : State) : Event → Option (State × Option Encryption)
  | .encryptStart filesize drawn => some ((s.fileEncryptStart filesize drawn).1, none)
  | .decryptStart => some (s.fileDecryptStart.1, none)
  | .truncate size drawn ok => some (s.truncate size drawn ok, none)
  | .seek id offset drawn => some ((s.fileCryptoSeek id offset drawn).1, none)
  | .update id input =>
    (s.fileCryptoUpdate g id input).map fun r => (r.1, s.completed g id input)
  | .finish id ok => some ((s.fileCryptoFinish id ok).1, none)

/-- The states of a file, with the encryptions so far. -/
inductive Reached (g : Gcm) : State → List Encryption → Prop where
  | create (rootUuid myUuid : Uuid) : Reached g (.create rootUuid myUuid) []
  | step {s s' : State} {encryptions : List Encryption} {event : Event} {e : Option Encryption}
      (h : Reached g s encryptions) (hstep : s.step g event = some (s', e)) :
      Reached g s' (e.toList ++ encryptions)

/-! ## What a call does to the chunks -/

/-- Every chunk is as it was, or drawn anew. -/
structure Refreshed (f f' : Filenode) : Prop where
  log : f'.log2chunksize = f.log2chunksize
  chunk : ∀ (i : Nat) (entry : ChunkEntry), f'.chunkList[i]? = some entry →
    f.chunkList[i]? = some entry ∨ entry.mac = 0

theorem Refreshed.rfl (f : Filenode) : Refreshed f f := ⟨Eq.refl _, fun _ _ h => .inl h⟩

theorem refreshed_setFilesize (f : Filenode) (filesize : Nat)
    (drawn : Nat → BitVec 128 × BitVec 128) :
    Refreshed f (f.setFilesize filesize (cryptoCtxGenerate ∘ drawn)) := by
  unfold Filenode.setFilesize
  split
  · exact .rfl f
  dsimp only
  split
  · exact ⟨Eq.refl _, fun _ _ h => .inl h⟩
  refine ⟨Eq.refl _, fun i entry h => ?_⟩
  dsimp only at h
  rw [getElem?_append] at h
  split at h
  next hlt =>
    rw [getElem?_take] at h
    split at h
    · exact .inl h
    · cases h
  next =>
    rw [getElem?_map] at h
    obtain ⟨j, -, rfl⟩ := Option.map_eq_some_iff.mp h
    exact .inr (Eq.refl _)

theorem refreshed_filenodeGetChunk {f f' : Filenode} {offset chunkNum : Nat} {regenerate : Bool}
    {drawn : BitVec 128 × BitVec 128} {entry : ChunkEntry}
    (h : filenodeGetChunk f offset regenerate drawn = some (f', chunkNum, entry)) :
    Refreshed f f' := by
  unfold filenodeGetChunk at h
  dsimp only at h
  split at h
  · cases h
  split at h
  · cases h
    refine ⟨Eq.refl _, fun i entry h => ?_⟩
    dsimp only at h
    rw [getElem?_set] at h
    split at h
    · split at h
      · cases h
        exact .inr (Eq.refl _)
      · cases h
    · exact .inl h
  · cases h
    exact .rfl f

namespace State

variable {g : Gcm} {s s' : State} {id : Nat}

theorem refreshed_fileCryptoSeek (s : State) (id offset : Nat) (drawn : BitVec 128 × BitVec 128) :
    Refreshed s.filenode (s.fileCryptoSeek id offset drawn).1.filenode := by
  unfold fileCryptoSeek
  split
  · exact .rfl _
  split_ifs
  · exact .rfl _
  · exact .rfl _
  · exact .rfl _
  unfold setupDataBuffer
  split
  · exact .rfl _
  next hget => exact refreshed_filenodeGetChunk hget

theorem fileCryptoFinish_filenode (s : State) (id : Nat) (ok : Bool) :
    (s.fileCryptoFinish id ok).1.filenode = s.filenode := by
  unfold fileCryptoFinish
  split <;> rfl

variable {x : XferContext} {buf : DataBuf} {input : Bytes}

theorem completed_full (hx : s.xferTable id = some x) (hmode : x.mode = .encrypt) {chunk : Nat}
    (hchunk : x.cryptoContext = some chunk) (hbuf : x.dataBuffer = some buf)
    (hsize : updateSize x buf input = some x.chunkLeft) :
    s.completed g id input =
      some ⟨chunk, buf.key, buf.iv,
        (dataBufWrite g .encrypt buf (input.take x.chunkLeft)).2.pieces⟩ := by
  obtain ⟨mode, offset, chunkLeft, cryptoContext, dataBuffer⟩ := x
  simp only at hmode hchunk hbuf
  subst hmode hchunk hbuf
  simp only [completed, hx, hsize, if_true]

theorem completed_none (hx : s.xferTable id = some x)
    (h : x.mode = .decrypt ∨
      ∀ buf, x.dataBuffer = some buf → updateSize x buf input ≠ some x.chunkLeft) :
    s.completed g id input = none := by
  simp only [completed, hx]
  split
  next chunk buf hmode hchunk hbuf =>
    obtain hdecrypt | hsize := h
    · cases hmode.symm.trans hdecrypt
    · exact if_neg (hsize buf hbuf)
  next => rfl

/-- An update leaves the filenode alone, or writes the mac of the chunk that it completes. -/
theorem fileCryptoUpdate_filenode {ok : Bool} {out : Bytes}
    (h : s.fileCryptoUpdate g id input = some (s', ok, out)) :
    (s.completed g id input = none ∧ s'.filenode = s.filenode) ∨
    ∃ e entry length, s.completed g id input = some e ∧
      s.filenode.chunkList[e.chunk]? = some entry ∧
      s'.filenode =
        { s.filenode with
          chunkList := s.filenode.chunkList.set e.chunk { entry with mac := e.mac g }
          encryptedLength := length } := by
  unfold fileCryptoUpdate at h
  cases hx : s.xferTable id with
  | none =>
    rw [hx] at h
    cases h
    exact .inl ⟨by rw [completed, hx], rfl⟩
  | some x =>
    rw [hx] at h
    cases hbuf : x.dataBuffer with
    | none =>
      simp only [hbuf] at h
      cases h
      exact .inl ⟨completed_none hx (.inr (by simp [hbuf])), rfl⟩
    | some buf =>
      simp only [hbuf] at h
      cases hsize : updateSize x buf input with
      | none =>
        simp only [hsize] at h
        cases h
        exact .inl ⟨completed_none hx (.inr (by simp [hbuf, hsize])), rfl⟩
      | some nbytes =>
        have hle := (updateSize_le hsize).2
        simp only [hsize] at h
        split at h
        next hfull =>
          obtain rfl : nbytes = x.chunkLeft := by omega
          obtain ⟨⟨s₁, ok₁⟩, hflush, hpair⟩ := Option.map_eq_some_iff.mp h
          cases hpair
          cases hmode : x.mode with
          | encrypt =>
            simp only [flushDataBuffer, hmode] at hflush
            obtain ⟨s₂, hset, hpair⟩ := Option.map_eq_some_iff.mp hflush
            obtain ⟨chunk, hchunk, hset⟩ := Option.bind_eq_some_iff.mp hset
            obtain ⟨entry, hentry, rfl⟩ := Option.map_eq_some_iff.mp hset
            cases hpair
            refine .inr ⟨_, entry, max s.filenode.encryptedLength (x.offset + x.chunkLeft),
              completed_full hx hmode hchunk hbuf hsize, hentry, ?_⟩
            simp only [filenodeUpdateEncryptedPos_eq, putContext_filenode]
            rfl
          | decrypt =>
            refine .inl ⟨completed_none hx (.inl hmode), ?_⟩
            simp only [flushDataBuffer, hmode] at hflush
            split at hflush
            · obtain ⟨mac, -, hpair⟩ := Option.map_eq_some_iff.mp hflush
              cases hpair
              rfl
            · cases hflush
              rfl
        next hpart =>
          cases h
          have hne : nbytes ≠ x.chunkLeft := by omega
          exact .inl ⟨completed_none hx (.inr (by simp [hbuf, hsize, hne])), rfl⟩

/-! ## The macs of a file -/

/-- Every mac that is not zero is the one of the last encryption of its chunk. -/
structure Authentic (g : Gcm) (s : State) (encryptions : List Encryption) : Prop where
  log : s.filenode.log2chunksize = Filenode.globalLog2chunkSize
  macs : ∀ (i : Nat) (entry : ChunkEntry), s.filenode.chunkList[i]? = some entry →
    entry.mac = 0 ∨ ∃ e, lastEncryption encryptions i = some e ∧ entry.mac = e.mac g

theorem Authentic.refreshed {encryptions : List Encryption} (h : Authentic g s encryptions)
    (hfile : Refreshed s.filenode s'.filenode) : Authentic g s' encryptions where
  log := hfile.log.trans h.log
  macs := by
    intro i entry hentry
    obtain hold | hzero := hfile.chunk i entry hentry
    · exact h.macs i entry hold
    · exact .inl hzero

theorem Authentic.step {encryptions : List Encryption} (h : Authentic g s encryptions)
    {event : Event} {e : Option Encryption} (hstep : s.step g event = some (s', e)) :
    Authentic g s' (e.toList ++ encryptions) := by
  cases event with
  | encryptStart filesize drawn =>
    cases hstep
    exact h.refreshed (refreshed_setFilesize _ _ _)
  | decryptStart =>
    cases hstep
    exact h.refreshed (.rfl _)
  | truncate size drawn ok =>
    cases hstep
    exact h.refreshed (refreshed_setFilesize _ _ _)
  | seek id offset drawn =>
    cases hstep
    exact h.refreshed (refreshed_fileCryptoSeek _ _ _ _)
  | finish id ok =>
    cases hstep
    refine h.refreshed ?_
    rw [fileCryptoFinish_filenode]
    exact .rfl _
  | update id input =>
    obtain ⟨⟨s₁, ok, out⟩, hupdate, hpair⟩ := Option.map_eq_some_iff.mp hstep
    cases hpair
    obtain ⟨hnone, hfile⟩ | ⟨e, old, length, hsome, hold, hfile⟩ := fileCryptoUpdate_filenode hupdate
    · rw [hnone]
      exact h.refreshed (hfile ▸ .rfl _)
    · -- the mac of the completed chunk is written, and the chunk is recorded
      rw [hsome]
      refine ⟨by rw [hfile]; exact h.log, fun i entry hentry => ?_⟩
      rw [hfile] at hentry
      dsimp only at hentry
      rw [getElem?_set] at hentry
      split at hentry
      next hi =>
        split at hentry
        · cases hentry
          exact .inr ⟨e, by simp [lastEncryption, hi], rfl⟩
        · cases hentry
      next hi =>
        obtain hzero | ⟨e', he', hmac⟩ := h.macs i entry hentry
        · exact .inl hzero
        · exact .inr ⟨e', by simpa [lastEncryption, hi] using he', hmac⟩

theorem authentic_of_reached {encryptions : List Encryption} (h : Reached g s encryptions) :
    Authentic g s encryptions := by
  induction h with
  | create rootUuid myUuid =>
    exact ⟨rfl, fun i entry hentry => by simp [create, Filenode.create] at hentry⟩
  | step _ hstep ih => exact ih.step hstep

/-! ## What a read gives -/

/-- However the chunk is read, if all calls return 0 they give what was last encrypted for
it. -/
def ReadsBack (g : Gcm) (s : State) (encryptions : List Encryption) (chunk : Nat) : Prop :=
  ∀ inputs out, s.readChunk g chunk inputs = some out →
    (lastEncryption encryptions chunk).map (Encryption.plaintext g) = some out

/-- More has been encrypted than this chunk. -/
def Verified (s : State) (chunk : Nat) : Prop :=
  chunk * globalChunkSize + s.chunkLength chunk < s.filenode.encryptedLength

variable {encryptions : List Encryption} {chunk : Nat}

theorem readsBack_of_verified (h : Authentic g s encryptions)
    (hzero : ∀ key iv c n, g.mac key iv c n ≠ 0) (hbinds : ∀ e ∈ encryptions, e.Binds g)
    (hpos : 0 < s.chunkLength chunk) (hverified : s.Verified chunk) :
    ReadsBack g s encryptions chunk := by
  intro inputs out hread
  obtain ⟨entry, pieces, hentry, rfl, hmac⟩ := readChunk_inv h.log hpos hread
  have hentryMac := hmac hverified
  obtain hentryZero | ⟨e, he, heMac⟩ := h.macs chunk entry hentry
  · exact absurd (hentryMac.symm.trans hentryZero) (hzero _ _ _ _)
  · have hmem : e ∈ encryptions := mem_of_find?_eq_some he
    rw [he, Option.map_some, hbinds e hmem _ _ _ (hentryMac.symm.trans heMac)]

theorem readChunk_of_not_verified (h : Authentic g s encryptions)
    (hpos : 0 < s.chunkLength chunk) (hroom : s.chunkLength chunk ≤ globalChunkSize)
    (hverified : ¬ s.Verified chunk) (hchunk : chunk < s.filenode.chunkList.length)
    {out : Bytes} (hout : out.length = s.chunkLength chunk) :
    ∃ input, s.readChunk g chunk [input] = some out := by
  obtain ⟨entry, hentry⟩ : ∃ entry, s.filenode.chunkList[chunk]? = some entry :=
    ⟨_, getElem?_eq_getElem hchunk⟩
  refine ⟨mask (g.keystream entry.key entry.iv) 0 out, ?_⟩
  have hne : [] ∉ [mask (g.keystream entry.key entry.iv) 0 out] := by
    rw [mem_singleton]
    intro hnil
    have hlength := congrArg List.length hnil
    rw [length_mask, length_nil] at hlength
    omega
  rw [readChunk_of_pieces h.log hpos hroom hentry (by simpa using hout) hne
    fun hlt => absurd hlt hverified]
  simp [decipher]

end State

/-! ## Small files -/

/-- A cipher whose mac tells the encryption of the byte 7 from everything else. -/
def toyGcm : Gcm where
  keystream := fun _ _ _ => 0
  mac := fun _ _ c n => if c.head? = some 7 ∧ n = 1 then 1 else 2

/-- The states of a run. -/
def State.run (g : Gcm) : State → List Encryption → List Event → Option (State × List Encryption)
  | s, encryptions, [] => some (s, encryptions)
  | s, encryptions, event :: events =>
    match s.step g event with
    | none => none
    | some (s, e) => State.run g s (e.toList ++ encryptions) events

theorem reached_of_run {g : Gcm} {s s' : State} {encryptions encryptions' : List Encryption}
    {events : List Event} (h : Reached g s encryptions)
    (hrun : s.run g encryptions events = some (s', encryptions')) : Reached g s' encryptions' := by
  induction events generalizing s encryptions with
  | nil =>
    cases hrun
    exact h
  | cons event events ih =>
    unfold State.run at hrun
    split at hrun
    · cases hrun
    next hstep => exact ih (h.step hstep) hrun

/-- One transfer writes the byte 7 at the start of a chunk. -/
def oneByteAt (offset : Nat) : List Event :=
  [.encryptStart (offset + 1) fun _ => (0, 0), .seek 1 offset (0, 0), .update 1 [7], .finish 1 true]

theorem toyGcm_mac_ne_zero (key iv : BitVec 128) (c : Bytes) (n : Nat) :
    toyGcm.mac key iv c n ≠ 0 := by
  unfold toyGcm
  dsimp only
  split <;> decide

theorem decipher_toyGcm {key iv : BitVec 128} {pieces : List Bytes} {pos : Nat}
    (hhead : (blocks pieces).head? = some 7) (hlength : pieces.flatten.length = 1) :
    decipher (toyGcm.keystream key iv) pos pieces = [7] := by
  induction pieces generalizing pos with
  | nil => cases hlength
  | cons piece pieces ih =>
    cases piece with
    | nil => exact ih hhead hlength
    | cons byte rest =>
      have hrest : rest = [] ∧ pieces.flatten = [] := by
        simpa [← length_eq_zero_iff] using hlength
      obtain ⟨rfl, hflat⟩ := hrest
      have hnil : ∀ pos, decipher (toyGcm.keystream key iv) pos pieces = [] := by
        clear ih hhead hlength
        induction pieces with
        | nil => exact fun _ => rfl
        | cons piece pieces ih =>
          obtain ⟨rfl, hflat⟩ := append_eq_nil_iff.mp hflat
          exact fun pos => ih hflat _
      obtain rfl : byte = 7 := Option.some.inj hhead
      rw [decipher, hnil]
      simp [mask, toyGcm]

theorem toyGcm_binds (chunk : Nat) : Encryption.Binds toyGcm ⟨chunk, 0, 0, [[7]]⟩ := by
  intro key iv pieces hmac
  have hone : toyGcm.tag 0 0 [[7]] = 1 := by decide
  rw [Encryption.mac, hone, Gcm.tag, toyGcm] at hmac
  dsimp only at hmac
  split at hmac
  next h => exact (decipher_toyGcm h.1 h.2).trans (decipher_toyGcm rfl rfl).symm
  next => cases hmac

end Nexus.Files
