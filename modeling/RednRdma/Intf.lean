/-
The library's own view of the send queue (`mlx5_intf.c`, `mlx5_intf.h`).

The stock driver does not say where it puts a WQE, so the library keeps a
shadow of the driver's producer index: `updateScurPost` runs before a post, on
the work request it is handed, and advances `scur_post` by the blocks it thinks
the WQE will take.

* `updateScurPost` — the shadow step;
* `getSendWqe`, `findSlot`, `ibvFindWqe`, `ibvGetWqe` — the lookups that rest on it.
-/
import RednRdma.Context
import RednRdma.WorkRequest
import RednRdma.Utils
import Mathlib.Logic.Function.Basic

namespace Rdma

/-- `MLX5_SEND_WQE_BB`, the bytes of a block of the send queue. -/
abbrev SEND_WQE_BB : ℕ := 64

/-- The 16-byte units `update_scur_post` counts before the data segments. -/
def shadowHeader : WrOpcode → ℕ
  | .rdmaRead | .rdmaWrite | .rdmaWriteWithImm => 1 + 1
  | .atomicCmpAndSwp | .atomicFetchAndAdd => 1 + (1 + 1)
  | .cqeWait | .sendEnable | .recvEnable => 1 + 1
  | _ => 1

/-- The size `update_scur_post` computes: `send_flags` plays no part in it. -/
def shadowSize (wr : WorkRequest) : ℕ := shadowHeader wr.opcode + wr.dataSges.length

/-- `update_scur_post` on the work request `wr` points to. -/
def updateScurPost (wr : Option WorkRequest) (ctx : ConnContext) : Except Stop ConnContext := do
  let iqp ← deref ctx.iqp
  let wr ← deref wr
  let idx := (ctx.scurPost &&& (iqp.sqWqeCnt - 1)).toNat
  return { ctx with
    sqWrid := Function.update ctx.sqWrid idx wr.wrId
    scurPost := ctx.scurPost + UInt32.ofNat (divRoundUp (shadowSize wr * 16) SEND_WQE_BB) }

/-- `get_send_wqe`, as long as `n << SEND_WQE_SHIFT` is within an `int`: a ring with that many
slots would have 2 GiB. -/
def getSendWqe (ctx : ConnContext) (n : ℕ) : ℕ := ctx.sqStart + n * SEND_WQE_BB

/-- The slot the loop of `IBV_FIND_WQE` stops at. -/
def findSlot (ctx : ConnContext) (wrId : UInt32) : Option ℕ :=
  (List.range ctx.sqWqeCnt).find? fun i => ctx.sqWrid i = wrId.toUInt64

/-- `IBV_FIND_WQE`, with `none` for `NULL`. -/
def ibvFindWqe (ctx : ConnContext) (wrId : UInt32) : Option ℕ :=
  (findSlot ctx wrId).map (getSendWqe ctx)

/-- `IBV_GET_WQE`. -/
def ibvGetWqe (ctx : ConnContext) (idx : UInt32) : ℕ := getSendWqe ctx idx.toNat

theorem findSlot_eq_some {ctx : ConnContext} {wrId : UInt32} {i : ℕ}
    (h : findSlot ctx wrId = some i) :
    i < ctx.sqWqeCnt ∧ ctx.sqWrid i = wrId.toUInt64 := by
  refine ⟨List.mem_range.mp (List.mem_of_find?_eq_some h), ?_⟩
  simpa using List.find?_some h

theorem findSlot_eq_none {ctx : ConnContext} {wrId : UInt32} :
    findSlot ctx wrId = none ↔ ∀ i < ctx.sqWqeCnt, ctx.sqWrid i ≠ wrId.toUInt64 := by
  simp [findSlot, List.find?_eq_none]

end Rdma
