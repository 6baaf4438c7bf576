/-
Work requests, as `struct ibv_send_wr` and `struct ibv_exp_send_wr` hold them.

A list of work requests linked by `next` is a `List`; `sg_list` with its
`num_sge` is a `List` too.
-/
import Mathlib.Algebra.Order.Ring.Nat

namespace Rdma

/-- The opcodes of the table `mlx5_ib_opcode`. -/
inductive WrOpcode
  | rdmaWrite | rdmaWriteWithImm | send | sendWithImm | rdmaRead
  | atomicCmpAndSwp | atomicFetchAndAdd
  | sendWithInv | extMaskedAtomicCmpAndSwp | extMaskedAtomicFetchAndAdd
  | sendEnable | recvEnable | cqeWait | nop
  | umrFill | umrInvalidate | tso | bindMw | localInv
  deriving Repr, DecidableEq

/-- `struct ibv_sge`. -/
structure Sge where
  addr : UInt64
  length : UInt32
  lkey : UInt32
  deriving Repr, DecidableEq

/-- The `IBV_SEND_*` and `IBV_EXP_SEND_*` bits the library uses. -/
structure SendFlags where
  fence : Bool := false
  signaled : Bool := false
  solicited : Bool := false
  inl : Bool := false
  waitEnLast : Bool := false
  withCalc : Bool := false
  deriving Repr, DecidableEq

/-- The `task` union of a cross-channel work request. -/
inductive Task
  | none
  | cqeWait (cq : Option ℕ) (cqCount : UInt32)
  | wqeEnable (qpNum : UInt32) (wqeCount : UInt32)
  deriving Repr, DecidableEq

/-- `struct ibv_exp_send_wr`; the fields left out of a value are zero, as after
`memset`. -/
structure WorkRequest where
  wrId : UInt64 := 0
  sgList : List Sge := []
  opcode : WrOpcode
  flags : SendFlags := {}
  immData : UInt32 := 0
  remoteAddr : UInt64 := 0
  rkey : UInt32 := 0
  compareAdd : UInt64 := 0
  swap : UInt64 := 0
  task : Task := .none
  deriving Repr, DecidableEq

/-- The SGEs that get a data segment: those of non-zero length. -/
def WorkRequest.dataSges (wr : WorkRequest) : List Sge :=
  wr.sgList.filter fun sge => 0 < sge.length

/-- The bytes the SGEs gather. -/
def WorkRequest.byteLen (wr : WorkRequest) : ℕ :=
  (wr.sgList.map fun sge => sge.length.toNat).sum

end Rdma
