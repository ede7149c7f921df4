import Nexus.Files.RoundTrip

/-!
# The chunks of a filenode

A filenode grows and shrinks with the size of its file.  `filenode_runs` says what holds of
it after any calls: how many chunks it has, which of them can be got, that the others keep
their contexts, and that what is stored of it is read back.
-/

namespace Nexus.Files

open Codec List

/-! ## Serialisation -/

/-- `nexus_crypto_ctx_serialize`. -/
def cryptoCtxSerialize (e : ChunkEntry) : Bytes :=
  le 16 e.key.toNat ++ le 16 e.iv.toNat ++ le 16 e.mac.toNat

/-- `nexus_crypto_ctx_parse`. -/
def cryptoCtxParse : Parser ChunkEntry := fun bs => do
  let (key, bs) ← nat 16 bs
  let (iv, bs) ← nat 16 bs
  let (mac, bs) ← nat 16 bs
  some (⟨BitVec.ofNat 128 key, BitVec.ofNat 128 iv, BitVec.ofNat 128 mac⟩, bs)

/-- `sizeof(struct __filenode_hdr)`. -/
def filenodeHdrSize : Nat := 16 + 16 + 8 + 4 + 1 + 8

/-- `nexus_crypto_ctx_bufsize`. -/
def cryptoCtxBufsize : Nat := 16 + 16 + 16

/-- `__get_filenode_size`. -/
def getFilenodeSize (f : Filenode) : Nat :=
  filenodeHdrSize + f.nchunks.toNat * cryptoCtxBufsize + attributeTableGetSize f.attributeTable

/-- What `filenode_serialize` writes. -/
def filenodeBytes (f : Filenode) (mv : MacAndVersion) : Bytes :=
  le 16 f.myUuid.toNat ++ le 16 f.rootUuid.toNat ++ le 8 f.encryptedLength ++
    le 4 f.nchunks.toNat ++ le 1 f.log2chunksize ++ le 8 f.filesize ++
    (f.chunkList.take f.nchunks.toNat).flatMap cryptoCtxSerialize ++
    attributeTableBytes (exportMacversion mv f.attributeTable)

/-- `filenode_serialize`; `macversion` is what `abac_global_export_macversion` gives. -/
def filenodeSerialize (f : Filenode) (macversion : Option MacAndVersion) (bytesLeft : Nat) :
    Option Bytes :=
  -- the loop follows the pointer to each of `nchunks` entries
  if f.nchunks.toNat > f.chunkList.length then none
  else if bytesLeft - filenodeHdrSize - f.nchunks.toNat * cryptoCtxBufsize <
    attributeTableGetSize f.attributeTable then none
  else macversion.map (filenodeBytes f)

/-- `filenode_from_buffer`. -/
def filenodeFromBuffer (bs : Bytes) : Option Filenode := do
  let (myUuid, bs) ← nat 16 bs
  let (rootUuid, bs) ← nat 16 bs
  let (encryptedLength, bs) ← nat 8 bs
  let (nchunks, bs) ← nat 4 bs
  let (log2chunksize, bs) ← nat 1 bs
  let (filesize, bs) ← nat 8 bs
  let (chunkList, bs) ← many cryptoCtxParse nchunks bs
  let (attributeTable, _) ← attributeTableFromBuffer bs
  some ⟨BitVec.ofNat 128 myUuid, BitVec.ofNat 128 rootUuid, log2chunksize, encryptedLength,
    BitVec.ofNat 32 nchunks, filesize, chunkList, attributeTable⟩

/-! ## Runs -/

/-- The calls that change a filenode; the sizes are those of a volume. -/
inductive FilenodeCall where
  | setFilesize (size : Fin (2 ^ 50)) (drawn : Nat → BitVec 128 × BitVec 128)
  | getChunk (offset : Nat) (regenerate : Bool) (drawn : BitVec 128 × BitVec 128)
  | updateEncryptedPos (pos : BitVec 64)

/-- A filenode, and whether a size other than 0 was ever set. -/
structure FilenodeRun where
  filenode : Filenode
  sized : Bool

def FilenodeRun.step (r : FilenodeRun) : FilenodeCall → FilenodeRun
  | .setFilesize size drawn =>
    ⟨r.filenode.setFilesize size (cryptoCtxGenerate ∘ drawn), r.sized || size ≠ 0⟩
  | .getChunk offset regenerate drawn =>
    ⟨((filenodeGetChunk r.filenode offset regenerate drawn).map Prod.fst).getD r.filenode, r.sized⟩
  | .updateEncryptedPos pos => ⟨filenodeUpdateEncryptedPos r.filenode pos.toNat, r.sized⟩

/-- The filenode of `filenode_create` after some calls. -/
def FilenodeRun.after (rootUuid myUuid : Uuid) (calls : List FilenodeCall) : FilenodeRun :=
  calls.foldl FilenodeRun.step ⟨.create rootUuid myUuid, false⟩

/-- The chunk is the one that the call draws anew. -/
def FilenodeCall.Regenerates (i : Nat) : FilenodeCall → Prop
  | .getChunk offset regenerate _ => regenerate = true ∧ i = offset / globalChunkSize
  | _ => False

structure FilenodeRun.Inv (r : FilenodeRun) : Prop where
  log : r.filenode.log2chunksize = Filenode.globalLog2chunkSize
  filesize : r.filenode.filesize < 2 ^ 50
  counted : r.sized = true → Counted r.filenode
  new : r.sized = false →
    r.filenode.filesize = 0 ∧ r.filenode.nchunks = 0 ∧ r.filenode.chunkList = []
  encryptedLength : r.filenode.encryptedLength < 2 ^ 64
  attributeTable : r.filenode.attributeTable = attributeTableCreate

variable {r : FilenodeRun}

theorem getChunkCount_lt {f : Filenode} (hlog : f.log2chunksize = Filenode.globalLog2chunkSize)
    {size : Nat} (hsize : size < 2 ^ 50) : f.getChunkCount size < 2 ^ 31 := by
  rw [getChunkCount_eq hlog, globalChunkSize, Filenode.globalLog2chunkSize]
  omega

theorem FilenodeRun.Inv.nchunks (h : r.Inv) :
    r.filenode.chunkList.length = r.filenode.nchunks.toNat ∧
      r.filenode.nchunks.toNat =
        if r.sized then r.filenode.filesize / globalChunkSize + 1 else 0 := by
  cases hsized : r.sized with
  | false =>
    obtain ⟨-, hnchunks, hchunks⟩ := h.new hsized
    simp [hnchunks, hchunks]
  | true =>
    have hcounted := h.counted hsized
    have hlt := getChunkCount_lt h.log h.filesize
    rw [hcounted.chunkList, hcounted.nchunks, BitVec.toNat_ofNat, Nat.mod_eq_of_lt (by omega),
      getChunkCount_eq h.log]
    simp

theorem FilenodeRun.Inv.setFilesize (h : r.Inv) (size : Fin (2 ^ 50))
    (drawn : Nat → BitVec 128 × BitVec 128) : (r.step (.setFilesize size drawn)).Inv := by
  obtain ⟨hlog, htable, hencrypted⟩ :=
    setFilesize_frame r.filenode size (cryptoCtxGenerate ∘ drawn)
  have hsize := State.filesize_setFilesize r.filenode size (cryptoCtxGenerate ∘ drawn)
  have hlt := getChunkCount_lt h.log size.isLt
  refine ⟨hlog.trans h.log, lt_of_eq_of_lt hsize size.isLt, fun hs => ?_, fun hs => ?_,
    hencrypted.trans_lt h.encryptedLength, htable.trans h.attributeTable⟩
  · cases hsized : r.sized with
    | true =>
      have hlt' := getChunkCount_lt h.log h.filesize
      exact (resized_setFilesize (h.counted hsized) (by omega) (by omega) _).counted
    | false =>
      obtain ⟨hzero, hnchunks, hchunks⟩ := h.new hsized
      refine counted_setFilesize_of_new hzero hnchunks hchunks ?_ hlt _
      simpa [step, hsized] using hs
  · obtain ⟨hsized, hzero⟩ : r.sized = false ∧ size.val = 0 := by simpa [step] using hs
    rw [step, hzero, Filenode.setFilesize, if_pos (h.new hsized).1]
    exact h.new hsized

theorem FilenodeRun.Inv.setChunks (h : r.Inv) {chunkList : List ChunkEntry}
    (hlength : chunkList.length = r.filenode.chunkList.length) {encryptedLength : Nat}
    (hencrypted : encryptedLength < 2 ^ 64) :
    Inv ⟨{ r.filenode with chunkList, encryptedLength }, r.sized⟩ := by
  refine ⟨h.log, h.filesize, fun hs => ?_, fun hs => ?_, hencrypted, h.attributeTable⟩
  · exact ⟨(h.counted hs).nchunks, hlength.trans (h.counted hs).chunkList⟩
  · obtain ⟨hzero, hnchunks, hchunks⟩ := h.new hs
    rw [hchunks] at hlength
    exact ⟨hzero, hnchunks, eq_nil_of_length_eq_zero hlength⟩

theorem FilenodeRun.Inv.step (h : r.Inv) (c : FilenodeCall) : (r.step c).Inv := by
  cases c with
  | setFilesize size drawn => exact h.setFilesize size drawn
  | getChunk offset regenerate drawn =>
    unfold FilenodeRun.step filenodeGetChunk
    dsimp only
    split
    · exact h
    · split
      · exact h.setChunks (length_set ..) h.encryptedLength
      · exact h
  | updateEncryptedPos pos =>
    rw [FilenodeRun.step, filenodeUpdateEncryptedPos_eq]
    exact h.setChunks rfl (max_lt h.encryptedLength pos.isLt)

theorem FilenodeRun.inv_after (rootUuid myUuid : Uuid) (calls : List FilenodeCall) :
    (after rootUuid myUuid calls).Inv := by
  refine foldlRecOn calls _ ?_ fun r h c _ => h.step c
  exact ⟨rfl, by norm_num [Filenode.create], nofun, fun _ => ⟨rfl, rfl, rfl⟩,
    by norm_num [Filenode.create], rfl⟩

theorem FilenodeRun.step_chunk {c : FilenodeCall} {i : Nat} {e e' : ChunkEntry}
    (hlog : r.filenode.log2chunksize = Filenode.globalLog2chunkSize)
    (he : r.filenode.chunkList[i]? = some e) (he' : (r.step c).filenode.chunkList[i]? = some e')
    (hc : ¬ c.Regenerates i) : e' = e := by
  suffices (r.step c).filenode.chunkList[i]? = some e from Option.some.inj (he'.symm.trans this)
  cases c with
  | setFilesize size drawn =>
    exact State.chunkList_setFilesize he (List.getElem?_eq_some_iff.mp he').1
  | getChunk offset regenerate drawn =>
    unfold FilenodeRun.step filenodeGetChunk
    dsimp only
    split
    · exact he
    · split
      next hregenerate =>
        have hne : r.filenode.getChunkNumber offset ≠ i := by
          rw [Filenode.getChunkNumber_eq, Filenode.chunksize, hlog]
          exact fun heq => hc ⟨hregenerate, heq.symm⟩
        exact (getElem?_set_ne hne).trans he
      · exact he
  | updateEncryptedPos pos =>
    rw [FilenodeRun.step, filenodeUpdateEncryptedPos_eq]
    exact he

theorem FilenodeRun.Inv.getChunk_isSome (h : r.Inv) (offset : Nat) (regenerate : Bool)
    (drawn : BitVec 128 × BitVec 128) :
    (filenodeGetChunk r.filenode offset regenerate drawn).isSome = true ↔
      offset / globalChunkSize < r.filenode.nchunks.toNat := by
  have hnumber : r.filenode.getChunkNumber offset = offset / globalChunkSize := by
    rw [Filenode.getChunkNumber_eq, Filenode.chunksize, h.log]
    rfl
  unfold filenodeGetChunk
  rw [hnumber, ← h.nchunks.1]
  dsimp only
  split
  next hentry => simpa using hentry
  next entry hentry =>
    have hlt := (List.getElem?_eq_some_iff.mp hentry).1
    cases regenerate <;> simp [hlt]

theorem cryptoCtxParse_append (e : ChunkEntry) (rest : Bytes) :
    cryptoCtxParse (cryptoCtxSerialize e ++ rest) = some (e, rest) := by
  simp [cryptoCtxParse, cryptoCtxSerialize]

theorem filenodeSerialize_eq {f : Filenode} (hlength : f.chunkList.length = f.nchunks.toNat)
    (mv : MacAndVersion) :
    filenodeSerialize f (some mv) (getFilenodeSize f) = some (filenodeBytes f mv) := by
  have hleft : getFilenodeSize f - filenodeHdrSize - f.nchunks.toNat * cryptoCtxBufsize =
      attributeTableGetSize f.attributeTable := by
    unfold getFilenodeSize
    omega
  rw [filenodeSerialize, if_neg (by omega), hleft, if_neg (lt_irrefl _)]
  rfl

theorem FilenodeRun.Inv.filenodeFromBuffer_eq (h : r.Inv) (mv : MacAndVersion) :
    (filenodeBytes r.filenode mv).length = getFilenodeSize r.filenode ∧
      filenodeFromBuffer (filenodeBytes r.filenode mv) =
        some { r.filenode with attributeTable := exportMacversion mv r.filenode.attributeTable } := by
  have hlength := h.nchunks.1
  have hlog : r.filenode.log2chunksize < 256 ^ 1 := by
    rw [h.log]
    norm_num [Filenode.globalLog2chunkSize]
  have hfilesize : r.filenode.filesize < 256 ^ 8 := h.filesize.trans (by norm_num)
  have hencrypted : r.filenode.encryptedLength < 256 ^ 8 :=
    h.encryptedLength.trans_eq (by norm_num)
  obtain ⟨table, htable, hwf⟩ : ∃ table, exportMacversion mv r.filenode.attributeTable = table ∧
      table.WF ∧ table.reloaded = table ∧
        attributeTableGetSize table = attributeTableGetSize r.filenode.attributeTable := by
    obtain ⟨hcount, hfits, hentries, hunique⟩ := attributeTableCreate_wf
    rw [h.attributeTable]
    exact ⟨_, rfl, ⟨hcount, hfits, hentries, hunique⟩, rfl, rfl⟩
  obtain ⟨hwf, hreloaded, hsize⟩ := hwf
  unfold filenodeBytes
  rw [htable, take_of_length_le hlength.le]
  constructor
  · have hchunks : (r.filenode.chunkList.flatMap cryptoCtxSerialize).length =
        r.filenode.nchunks.toNat * cryptoCtxBufsize := by
      simp [length_flatMap, cryptoCtxSerialize, cryptoCtxBufsize, hlength]
    simp only [length_append, length_le, hchunks, length_attributeTableBytes hwf, hsize,
      getFilenodeSize, filenodeHdrSize]
  · have hparse := attributeTableFromBuffer_append hwf []
    rw [append_nil, hreloaded] at hparse
    have hchunks := many_records hlength.symm (fun e _ => cryptoCtxParse_append e)
      (attributeTableBytes table)
    simp [filenodeFromBuffer, nat_append_of_lt hencrypted, nat_append_of_lt hlog,
      nat_append_of_lt hfilesize, hchunks, hparse]

/-- A filenode that was given sizes, chunks and positions has a chunk for each position of its
file, keeps the contexts that it does not draw anew, and is read back as it was stored. -/
theorem filenode_runs (rootUuid myUuid : Uuid) (calls : List FilenodeCall) :
    let r := FilenodeRun.after rootUuid myUuid calls
    let f := r.filenode
    (f.chunkList.length = f.nchunks.toNat ∧
      f.nchunks.toNat = if r.sized then f.filesize / globalChunkSize + 1 else 0) ∧
    (∀ off regenerate drawn, (filenodeGetChunk f off regenerate drawn).isSome = true ↔
      off / globalChunkSize < f.nchunks.toNat) ∧
    (r.sized = true → ∀ off ≤ f.filesize, off / globalChunkSize < f.nchunks.toNat) ∧
    (∀ (c : FilenodeCall) (i : Nat) (e e' : ChunkEntry), f.chunkList[i]? = some e →
      (r.step c).filenode.chunkList[i]? = some e' → ¬ c.Regenerates i → e' = e) ∧
    ∀ mv, ∃ bytes, filenodeSerialize f (some mv) (getFilenodeSize f) = some bytes ∧
      bytes.length = getFilenodeSize f ∧ filenodeFromBuffer bytes =
        some { f with attributeTable := exportMacversion mv f.attributeTable } := by
  have h := FilenodeRun.inv_after rootUuid myUuid calls
  refine ⟨h.nchunks, h.getChunk_isSome, fun hsized off hoff => ?_, fun c i e e' => ?_, fun mv => ?_⟩
  · rw [h.nchunks.2, hsized]
    exact Nat.lt_succ_of_le (Nat.div_le_div_right hoff)
  · exact FilenodeRun.step_chunk h.log
  · exact ⟨_, filenodeSerialize_eq h.nchunks.1 mv, h.filenodeFromBuffer_eq mv⟩

/-- A new filenode has no chunk at the end of its file. -/
theorem getChunk_of_new : 0 ≤ (Filenode.create 0 0).filesize ∧
    filenodeGetChunk (.create 0 0) 0 false (0, 0) = none := by
  decide

end Nexus.Files
