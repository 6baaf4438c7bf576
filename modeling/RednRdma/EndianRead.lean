/-
The conversion of byte orders (`verbs.c`).

`IBV_CONVERT_ENDIAN_ASYNC` posts a READ whose SGEs are the bytes of the local number, one each
and the last address first; the device fills them in order.

* `convertRequest` — the READ;
* `runRead` — its execution, from a remote memory into a local one;
* `runRead_convertRequest` — it stores the remote bytes in reverse;
* `convert_endian` — the call, once and twice.
-/
import RednRdma.Lib.Bytes
import RednRdma.PostCall

namespace Rdma

namespace Endian

open Bytes

/-- The request of `IBV_CONVERT_ENDIAN_ASYNC`. -/
def convertRequest (wrId src dst size lkey rkey : UInt64) : WorkRequest where
  wrId := wrId
  sgList := (List.range size.toNat).map fun i =>
    { addr := src + size - 1 - UInt64.ofNat i, length := 1, lkey := lkey.toUInt32 }
  opcode := .rdmaRead
  remoteAddr := dst
  rkey := rkey.toUInt32
  flags := { signaled := true }

/-- The segments of a request, as addresses and lengths. -/
def segments (wr : WorkRequest) : List (ℕ × ℕ) :=
  wr.sgList.map fun sge => (sge.addr.toNat, sge.length.toNat)

/-- An RDMA READ: the remote bytes go into the SGEs, in list order. -/
def runRead (localMem remoteMem : Mem) (wr : WorkRequest) : Mem :=
  scatter localMem (segments wr) (load remoteMem wr.remoteAddr.toNat wr.byteLen)

/-- A call that returns has posted the request, and nothing else. -/
theorem ibvConvertEndianAsync_posts {c c' : Conn} {src dst size lkey rkey : UInt64} {ret : UInt32}
    (h : ibvConvertEndianAsync c src dst size lkey rkey = .ok (ret, c')) :
    c.qp.postList [convertRequest ret.toUInt64 src dst size lkey rkey] = some c'.qp := by
  rw [ibvConvertEndianAsync] at h
  split at h
  · exact absurd h (by simp)
  · obtain ⟨rfl, hsubmit⟩ := postNext_eq_ok h
    exact (submit_eq_ok hsubmit).2

variable {wrId src dst size lkey rkey : UInt64}

/-- SGE `i` is the byte `i` from the end, in 64-bit arithmetic. -/
theorem addr_toNat (hsrc : src.toNat + size.toNat ≤ 2 ^ 64) {i : ℕ} (hi : i < size.toNat) :
    (src + size - 1 - UInt64.ofNat i).toNat = src.toNat + size.toNat - 1 - i := by
  have hsize := size.toNat_lt
  have hone : (1 : UInt64).toNat = 1 := rfl
  rw [UInt64.toNat_sub, UInt64.toNat_sub, UInt64.toNat_add, UInt64.toNat_ofNat', hone]
  omega

theorem segments_convertRequest (hsrc : src.toNat + size.toNat ≤ 2 ^ 64) :
    segments (convertRequest wrId src dst size lkey rkey) =
      (List.range size.toNat).map fun i => (src.toNat + size.toNat - 1 - i, 1) := by
  rw [segments, convertRequest, List.map_map]
  refine List.map_congr_left ?_
  intro i hi
  exact congrArg (·, 1) (addr_toNat hsrc (List.mem_range.mp hi))

theorem byteLen_convertRequest :
    (convertRequest wrId src dst size lkey rkey).byteLen = size.toNat := by
  rw [WorkRequest.byteLen, convertRequest, List.map_map]
  simp [Function.comp_def]

/-- The READ stores the remote bytes in reverse. -/
theorem runRead_convertRequest (localMem remoteMem : Mem)
    (hsrc : src.toNat + size.toNat ≤ 2 ^ 64) :
    runRead localMem remoteMem (convertRequest wrId src dst size lkey rkey) =
      store localMem src.toNat (load remoteMem dst.toNat size.toNat).reverse := by
  rw [runRead, segments_convertRequest hsrc, byteLen_convertRequest]
  exact scatter_down (length_load _ _ _)

/-- Byte by byte: those of the number are the remote ones from the end, and the others are
kept. -/
theorem runRead_inside (localMem remoteMem : Mem) (hsrc : src.toNat + size.toNat ≤ 2 ^ 64) {j : ℕ}
    (hj : j < size.toNat) :
    runRead localMem remoteMem (convertRequest wrId src dst size lkey rkey) (src.toNat + j) =
      remoteMem (dst.toNat + size.toNat - 1 - j) := by
  have hbyte : (load remoteMem dst.toNat size.toNat).reverse[j]? =
      some (remoteMem (dst.toNat + size.toNat - 1 - j)) := by
    rw [List.getElem?_reverse (by rwa [length_load]), length_load, getElem?_load (by omega)]
    congr 2
    omega
  rw [runRead_convertRequest localMem remoteMem hsrc, store_add hbyte]

theorem runRead_outside (localMem remoteMem : Mem) (hsrc : src.toNat + size.toNat ≤ 2 ^ 64) {x : ℕ}
    (hx : x < src.toNat ∨ src.toNat + size.toNat ≤ x) :
    runRead localMem remoteMem (convertRequest wrId src dst size lkey rkey) x = localMem x := by
  rw [runRead_convertRequest localMem remoteMem hsrc, store_of_outside]
  rwa [List.length_reverse, length_load]

/-- **The conversion**: the call posts one READ, which fills the local number with the remote
bytes in reverse and leaves every other byte; a second one that reads the first result restores
their order. -/
theorem convert_endian {src dst size : UInt64} (hsize : size ≤ 16)
    (hsrc : src.toNat + size.toNat ≤ 2 ^ 64) (lkey rkey : UInt64) :
    (∀ c, ibvConvertEndianAsync c src dst size lkey rkey =
        postNext c true "failed to post rdma operation"
          (convertRequest 0 src dst size lkey rkey)) ∧
      (∀ c ret c', ibvConvertEndianAsync c src dst size lkey rkey = .ok (ret, c') →
        c.qp.postList [convertRequest ret.toUInt64 src dst size lkey rkey] = some c'.qp) ∧
      ∀ wrId localMem remoteMem first,
        first = runRead localMem remoteMem (convertRequest wrId src dst size lkey rkey) →
        (∀ j < size.toNat,
          first (src.toNat + j) = remoteMem (dst.toNat + size.toNat - 1 - j)) ∧
        (∀ x, (∀ j < size.toNat, x ≠ src.toNat + j) → first x = localMem x) ∧
        ∀ wrId' lkey' rkey' localMem' (src' : UInt64), src'.toNat + size.toNat ≤ 2 ^ 64 →
          ∀ j < size.toNat,
            runRead localMem' first (convertRequest wrId' src' src size lkey' rkey')
              (src'.toNat + j) = remoteMem (dst.toNat + j) := by
  refine ⟨fun c => if_neg (UInt64.not_lt.mpr hsize),
    fun c ret c' => ibvConvertEndianAsync_posts, ?_⟩
  rintro wrId localMem remoteMem first rfl
  refine ⟨fun j hj => runRead_inside localMem remoteMem hsrc hj, fun x hx => ?_, ?_⟩
  · refine runRead_outside localMem remoteMem hsrc ?_
    by_contra hin
    exact hx (x - src.toNat) (by omega) (by omega)
  · intro wrId' lkey' rkey' localMem' src' hsrc' j hj
    -- byte `j` comes from byte `j` from the end, and that from byte `j`
    have hback : src.toNat + size.toNat - 1 - j = src.toNat + (size.toNat - 1 - j) := by omega
    rw [runRead_inside localMem' _ hsrc' hj, hback,
      runRead_inside localMem remoteMem hsrc (by omega)]
    congr 1
    omega

/-- Eight bytes at the end of the address space, and from there to another place. -/
theorem convert_endian_eight :
    let first := runRead (fun _ => 0) UInt8.ofNat
      (convertRequest 0 0xfffffffffffffff8 0x100 8 1 2)
    first 0xfffffffffffffff8 = 7 ∧ first 0xffffffffffffffff = 0 ∧ first 0xfffffffffffffff7 = 0 ∧
      runRead (fun _ => 0) first (convertRequest 1 0x200 0xfffffffffffffff8 8 1 2) 0x207 = 7 := by
  obtain ⟨-, -, h⟩ := @convert_endian 0xfffffffffffffff8 0x100 8 (by decide) (by decide) 1 2
  obtain ⟨hin, hout, htwice⟩ := h 0 (fun _ => 0) UInt8.ofNat _ rfl
  refine ⟨hin 0 (by decide), hin 7 (by decide), hout _ ?_, ?_⟩
  · intro j _
    show 0xfffffffffffffff7 ≠ 0xfffffffffffffff8 + j
    omega
  · exact htwice 1 1 2 (fun _ => 0) 0x200 (by decide) 7 (by decide)

end Endian

end Rdma
