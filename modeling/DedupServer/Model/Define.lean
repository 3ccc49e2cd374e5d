import DedupServer.Foundations.Pieces
import Mathlib.Data.List.AList
import Mathlib.Data.Set.Function

/-! # Constants, wire messages and stored records

The data types of `Config.h`, `define.h` and `BlockQueue.h`. Bytes are `UInt8`; a buffer is the
list of bytes written to it. Fixed-width integers of the source are `Nat` where every use is far
below the width, and carry an explicit reduction (`u32`, `sub32`) where the code computes in
32 bits with values that come from the peer.

Messages are modelled whole (`Msg`): the length-prefixed framing of `Util::send_data` and
`Util::receive_data` delivers each of them unchanged and in order. -/

namespace DedupServer

open Foundations

/-- A byte string. -/
abbrev Bytes := List UInt8

/-! ## `Config.h` -/

/-- Size of a chunk, `4 << 10`. -/
def CHUNKSIZE : Nat := 4096

/-- Number of chunks in one batch. -/
def BATCHSIZE : Nat := 1024

/-- Size of a chunk hash. -/
def HASHSIZE : Nat := 32

/-- Size of a container, `4 << 20`. -/
def CONTAINERSIZE : Nat := 4194304

/-- `sizeof(DataMsg_t)`: the message type, padding, and four `size_t` fields. -/
def sizeofDataMsg : Nat := 40

/-- `sizeof(ChunkAddr_t)`: the 40 characters of the container id and two `size_t` fields. -/
def sizeofChunkAddr : Nat := 56

/-! ## 32-bit arithmetic -/

/-- Conversion to `uint32_t`. -/
def u32 (n : Nat) : Nat := n % 2 ^ 32

/-- Difference of two `uint32_t` values. -/
def sub32 (a b : Nat) : Nat := u32 (a + (2 ^ 32 - b))

/-- Conversion changes nothing below `2 ^ 32`. -/
theorem u32_of_lt {n : Nat} (h : n < 2 ^ 32) : u32 n = n := Nat.mod_eq_of_lt h

/-- The difference is the true one when it is not negative. -/
theorem sub32_of_le {a b : Nat} (hba : b ≤ a) (ha : a < 2 ^ 32) : sub32 a b = a - b := by
  rw [sub32, u32]
  omega

/-! ## `define.h` -/

/-- `Order_t`: what a control message asks for or answers. -/
inductive Order
  | UPLOAD
  | UPLOADREP
  | DOWNLOAD
  | DOWNLOADREP
  | QUIT
  | QUITREP
  deriving DecidableEq, Repr

/-- `RepStatus_t`: the answer in a control message. -/
inductive RepStatus
  | NONE
  | DUPLICATE
  | UNIQUE
  | EXIST
  | NOTEXIST
  deriving DecidableEq, Repr

/-- `DataMsgType`. -/
inductive DataMsgType
  | UPLOADBODY
  | UPLOADBODYREP
  | DOWNLOADBODY
  | FILEEND
  | LOGIN
  deriving DecidableEq, Repr

/-- `DataMsgHeader_t`. -/
structure DataMsgHeader where
  dataMsgType : DataMsgType
  /-- Start position of the chunk hashes in the data. -/
  start : Nat
  /-- Number of chunk hashes in the later part of the data. -/
  queryNum : Nat
  /-- Number of chunks. -/
  chunkNum : Nat
  /-- Size of header and data. -/
  size : Nat
  deriving DecidableEq, Repr

/-- `DataMsg_t` as it travels: the header and the `size - sizeof(DataMsg_t)` bytes sent. -/
structure DataMsg where
  header : DataMsgHeader
  data : Bytes
  deriving DecidableEq, Repr

/-- A message on the stream. `login` is the data message of type `LOGIN`, whose data is a
`LoginInfo_t`. -/
inductive Msg
  | control (order : Order) (fileName : Bytes) (status : RepStatus)
  | login (client_id : Int)
  | data (msg : DataMsg)
  deriving DecidableEq, Repr

/-- A container id: the NUL-terminated string in `char containerID[40]`. -/
structure ContainerID where
  chars : Bytes
  noNul : (0 : UInt8) ∉ chars
  fits : chars.length < 40
  deriving DecidableEq

/-- `ChunkAddr_t`: where the bytes of a chunk are. -/
structure ChunkAddr where
  containerID : ContainerID
  offset : UInt64
  size : UInt64
  deriving DecidableEq

/-- `Container_t`: `data` is the part of the allocated block that has been written. -/
structure Container where
  containerID : ContainerID
  occupied : Nat
  capacity : Nat
  data : Bytes
  deriving DecidableEq

/-- `RecipeEntryContainer_t`: the `num` entries written to its block. -/
structure RecipeEntryContainer where
  data : List ChunkAddr
  deriving DecidableEq

/-- Number of entries. -/
def RecipeEntryContainer.num (r : RecipeEntryContainer) : Nat := r.data.length

/-- `ReadBuffer_t`: the first `dataSize` bytes and the first `chunkNum` hashes of its blocks. -/
structure ReadBuffer where
  dataBuffer : Bytes
  hashBuffer : Bytes
  chunkNum : Nat
  dataSize : Nat
  deriving DecidableEq, Repr

/-! ## `BlockQueue.h` -/

/-- `BlockQueue<T>`, seen one finished call at a time: the queued elements and the done flag. A
`push` that would have to wait for room is a step that is taken later. -/
structure BlockQueue (α : Type) where
  queue : List α
  done : Bool
  deriving DecidableEq

namespace BlockQueue

variable {α : Type}

/-- A new queue. -/
def empty : BlockQueue α := ⟨[], false⟩

/-- `push`. -/
def push (q : BlockQueue α) (e : α) : BlockQueue α := { q with queue := q.queue ++ [e] }

/-- `set_done`. -/
def setDone (q : BlockQueue α) : BlockQueue α := { q with done := true }

/-- `undone`. -/
def undone (q : BlockQueue α) : BlockQueue α := { q with done := false }

end BlockQueue

end DedupServer
