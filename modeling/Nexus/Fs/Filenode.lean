import Nexus.Dirnode.AttributeTable

/-!
# Filenodes

The metadata of a regular file: its size and one crypto context for each chunk.
-/

namespace Nexus

/-- `struct chunk_entry`. -/
structure ChunkEntry where
  key : BitVec 128
  iv : BitVec 128
  mac : Mac
  deriving DecidableEq

/-- `struct nexus_filenode`. -/
structure Filenode where
  myUuid : Uuid
  rootUuid : Uuid
  log2chunksize : Nat
  encryptedLength : Nat
  nchunks : BitVec 32
  filesize : Nat
  chunkList : List ChunkEntry
  attributeTable : AttributeTable
  deriving DecidableEq

namespace Filenode

/-- `global_log2chunk_size`. -/
def globalLog2chunkSize : Nat := 20

/-- `filenode_create`. -/
def create (rootUuid myUuid : Uuid) : Filenode where
  myUuid := myUuid
  rootUuid := rootUuid
  log2chunksize := globalLog2chunkSize
  encryptedLength := 0
  nchunks := 0
  filesize := 0
  chunkList := []
  attributeTable := attributeTableCreate

/-- `filenode->chunksize`. -/
def chunksize (f : Filenode) : Nat := 2 ^ f.log2chunksize

/-- `get_chunk_number`. -/
def getChunkNumber (f : Filenode) (offset : Nat) : Nat :=
  if offset < f.chunksize then 0 else 1 + ((offset - f.chunksize) >>> f.log2chunksize)

/-- `get_chunk_count`. -/
def getChunkCount (f : Filenode) (filesize : Nat) : Nat := f.getChunkNumber filesize + 1

/-- `filenode_set_filesize`.  The chunk count is kept in 32 bits, and the
difference of two counts is taken as an `int`; `generated` are the contexts of
the chunks that are added. -/
def setFilesize (f : Filenode) (filesize : Nat) (generated : Nat → ChunkEntry) : Filenode :=
  if f.filesize = filesize then f
  else
    let nchunks := BitVec.ofNat 32 (f.getChunkCount filesize)
    let difference := (nchunks - f.nchunks).toInt
    if difference = 0 then { f with filesize }
    else
      { f with
        encryptedLength := if f.encryptedLength > filesize then filesize else f.encryptedLength
        nchunks
        filesize
        chunkList :=
          -- one chunk is popped or added for each step of the difference
          f.chunkList.take (f.chunkList.length - (-difference).toNat) ++
            (List.range difference.toNat).map generated }

theorem chunksize_pos (f : Filenode) : 0 < f.chunksize := Nat.two_pow_pos _

/-- The case split of `get_chunk_number` changes nothing. -/
theorem getChunkNumber_eq (f : Filenode) (offset : Nat) :
    f.getChunkNumber offset = offset / f.chunksize := by
  unfold getChunkNumber
  split
  next hlt => rw [Nat.div_eq_of_lt hlt]
  next hge =>
    rw [Nat.shiftRight_eq_div_pow, Nat.add_comm, ← chunksize,
      ← Nat.add_div_right _ f.chunksize_pos, Nat.sub_add_cancel (Nat.le_of_not_lt hge)]

end Filenode

end Nexus
