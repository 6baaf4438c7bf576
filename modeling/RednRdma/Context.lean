/-
The data of a connection (`globals.h`, `common.h`, `connection.h`).

`ConnContext` is `struct conn_context` with the fields the modelled functions
read or write; its defaults are what `calloc` leaves.  Tables of a fixed size
are functions on `Fin`, read at a C `int` with `readAt`, where an index outside
the table is a fault.
-/
import Mathlib.Data.Int.Notation
import Mathlib.Data.Nat.Notation

namespace Rdma

/-- How a call ends when it does not return. -/
inductive Stop
  /-- `rc_die(reason)`, which exits the process. -/
  | rcDie (reason : String)
  /-- An access through `NULL` or outside an array. -/
  | fault
  deriving Repr, DecidableEq

abbrev MAX_DEVICES : ℕ := 2
abbrev MAX_CONNECTIONS : ℕ := 1000
abbrev MAX_MR : ℕ := 2
abbrev MAX_BUFFER : ℕ := 1

/-- `t[i]` at a C `int`. -/
def readAt {n : ℕ} {α : Type} (t : Fin n → α) (i : ℤ) : Except Stop α :=
  if h : 0 ≤ i ∧ i.toNat < n then .ok (t ⟨i.toNat, h.2⟩) else .error .fault

/-- A pointer that is followed. -/
def deref {α : Type} : Option α → Except Stop α
  | some a => .ok a
  | none => .error .fault

/-- `if(b) rc_die(reason)`. -/
def dieIf (b : Bool) (reason : String) : Except Stop Unit :=
  if b then .error (.rcDie reason) else .ok ()

/-- `struct ibv_mr`: a memory region registered in a protection domain. -/
structure IbvMr where
  addr : UInt64
  length : UInt64
  lkey : UInt32
  rkey : UInt32
  pd : ℕ
  deriving Repr, DecidableEq

/-- `struct mr_context`: a region as the application names it, or as the peer told it. -/
structure MrContext where
  type : ℤ := 0
  addr : UInt64 := 0
  length : UInt64 := 0
  lkey : UInt32 := 0
  rkey : UInt32 := 0
  physical : ℤ := 0
  deriving Repr, DecidableEq

/-- `enum rc_connection_state`. -/
inductive RcState
  | terminated | pending | active | ready
  deriving Repr, DecidableEq

/-- The send queue of `struct mlx5dv_qp`, as `mlx5dv_init_obj` fills it. -/
structure Mlx5dvQp where
  sqBuf : ℕ
  sqWqeCnt : UInt32
  sqStride : UInt32
  deriving Repr, DecidableEq

/-- `struct mlx5dv_cq`: the number the NIC knows the CQ by. -/
structure Mlx5dvCq where
  cqn : UInt32
  deriving Repr, DecidableEq

/-- `struct conn_context`.  Handles of verbs objects are numbers, and addresses
are natural numbers with `0` for `NULL`. -/
structure ConnContext where
  devid : ℤ := 0
  sockfd : ℤ := 0
  state : RcState := .pending
  appType : ℤ := 0
  iqp : Option Mlx5dvQp := none
  icq : Option Mlx5dvCq := none
  cq : Option ℕ := none
  compChannel : Option ℕ := none
  pollAlways : ℤ := 0
  pollEnable : ℤ := 0
  pollPermission : ℤ := 0
  localMr : Fin MAX_MR → Option IbvMr := fun _ => none
  remoteMr : Fin MAX_MR → Option MrContext := fun _ => none
  localMrReady : Fin MAX_MR → Bool := fun _ => false
  remoteMrReady : Fin MAX_MR → Bool := fun _ => false
  localMrToSync : ℤ := 0
  msgSendMr : Fin MAX_BUFFER → Option IbvMr := fun _ => none
  msgRcvMr : Fin MAX_BUFFER → Option IbvMr := fun _ => none
  msgSend : Fin MAX_BUFFER → UInt64 := fun _ => 0
  msgRcv : Fin MAX_BUFFER → UInt64 := fun _ => 0
  sendSlots : Fin MAX_BUFFER → Bool := fun _ => false
  sendIdx : UInt8 := 0
  /-- `id->qp->qp_num`, reached through `ctx->id`. -/
  qpNum : UInt32 := 0
  lastSend : UInt32 := 0
  lastSendCompl : UInt32 := 0
  lastRcv : UInt32 := 0
  lastRcvCompl : UInt32 := 0
  nPostedOps : UInt32 := 0
  bufferBindings : List (UInt32 × ℤ) := []
  sqStart : ℕ := 0
  sqWqeCnt : ℕ := 0
  sqWrid : ℕ → UInt64 := fun _ => 0
  sqEnd : ℕ := 0
  scurPost : UInt32 := 0
  fmCeSeTbl : Fin 8 → UInt8 := fun _ => 0
  sqSignalBits : UInt8 := 0
  flags : ℤ := 0

/-- `__sync_add_and_fetch(&ctx->last_send, 1)`. -/
def bumpSend (ctx : ConnContext) : ConnContext := { ctx with lastSend := ctx.lastSend + 1 }

/-- `next_wr_id`: the send and the receive queue count their ids apart. -/
def nextWrId (ctx : ConnContext) (send : ℤ) : UInt32 × ConnContext :=
  if send = 0 then (ctx.lastRcv + 1, { ctx with lastRcv := ctx.lastRcv + 1 })
  else if send ≥ 1 then (ctx.lastSend + 1, bumpSend ctx)
  else (0, ctx)

/-- `last_compl_wr_id`. -/
def lastComplWrId (ctx : ConnContext) (send : Bool) : UInt32 :=
  if send then ctx.lastSendCompl else ctx.lastRcvCompl

/-- `mr_local_ready`.  The guard lets `mr_id == MAX_MR` through. -/
def mrLocalReady (ctx : ConnContext) (mrId : ℤ) : Except Stop Bool :=
  if mrId > MAX_MR then .error (.rcDie "invalid memory region id; must be less than MAX_MR")
  else readAt ctx.localMrReady mrId

/-- `mr_remote_ready`. -/
def mrRemoteReady (ctx : ConnContext) (mrId : ℤ) : Except Stop Bool :=
  if mrId > MAX_MR then .error (.rcDie "invalid memory region id; must be less than MAX_MR")
  else readAt ctx.remoteMrReady mrId

theorem deref_eq_ok {α : Type} {o : Option α} {a : α} : deref o = .ok a ↔ o = some a := by
  cases o <;> simp [deref]

theorem dieIf_eq_ok {b : Bool} {reason : String} {u : Unit} :
    dieIf b reason = .ok u ↔ b = false := by
  cases b <;> simp [dieIf]

@[simp] theorem nextWrId_send (ctx : ConnContext) :
    nextWrId ctx 1 = (ctx.lastSend + 1, bumpSend ctx) := rfl

end Rdma
