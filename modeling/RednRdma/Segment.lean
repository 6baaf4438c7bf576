/-
The segments of a WQE, byte by byte (`mlx5_intf.h`, vendored `libmlx5`).

On a little-endian host a store of `htonl(x)` leaves the bytes of `x` in
big-endian order, which is how the NIC reads the fields of a WQE.

* `setCtrlSeg`, `setRaddrSeg`, `setAtomicSeg`, `setDataPtrSeg` — the segments as
  they are filled;
* `ctrlOf` — the control segment as the NIC reads it, and `ctrlOf_eq` that it
  reads what was filled in.
-/
import RednRdma.Lib.Bytes
import RednRdma.WorkRequest

namespace Rdma

open Bytes

/-! ### The fields of the segments, each of 16 bytes -/

abbrev QPN_DS : ℕ := 4
abbrev FM_CE_SE : ℕ := 11
abbrev IMM : ℕ := 12
abbrev RADDR_RKEY : ℕ := 8
abbrev ATOMIC_COMPARE : ℕ := 8
abbrev DATA_LKEY : ℕ := 4
abbrev DATA_ADDR : ℕ := 8

/-- `MLX5_OPCODE_*`, for the opcodes of the offload. -/
abbrev MLX5_OPCODE_NOP : ℕ := 0x00
abbrev MLX5_OPCODE_RDMA_WRITE_IMM : ℕ := 0x09
abbrev MLX5_OPCODE_RDMA_READ : ℕ := 0x10
abbrev MLX5_OPCODE_ATOMIC_CS : ℕ := 0x11

/-- The opcodes of `mlx5_ib_opcode`. -/
def mlx5IbOpcode : WrOpcode → ℕ
  | .send => 0x0a
  | .sendWithImm => 0x0b
  | .sendWithInv => 0x01
  | .rdmaWrite => 0x08
  | .rdmaWriteWithImm => MLX5_OPCODE_RDMA_WRITE_IMM
  | .rdmaRead => MLX5_OPCODE_RDMA_READ
  | .atomicCmpAndSwp => MLX5_OPCODE_ATOMIC_CS
  | .atomicFetchAndAdd => 0x12
  | .extMaskedAtomicCmpAndSwp => 0x14
  | .extMaskedAtomicFetchAndAdd => 0x15
  | .sendEnable => 0x17
  | .recvEnable => 0x16
  | .cqeWait => 0x0f
  | .nop => MLX5_OPCODE_NOP
  | .tso => 0x0e
  | .umrFill | .umrInvalidate | .bindMw | .localInv => 0x25

/-- `opmod << 24 | idx << 8 | opcode`. -/
def ctrlWord (opmod idx opcode : ℕ) : ℕ := opmod <<< 24 ||| idx <<< 8 ||| opcode

/-- `qp_num << 8 | (size & 0x3F)`. -/
def qpnWord (qpNum size : ℕ) : ℕ := qpNum <<< 8 ||| (size &&& 0x3F)

/-- `set_ctrl_seg`. -/
def setCtrlSeg (m : Mem) (start qpNum opcode idx opmod size fmCeSe imm : ℕ) : Mem :=
  let m := store m start (beBytes 4 (ctrlWord opmod idx opcode))
  let m := store m (start + QPN_DS) (beBytes 4 (qpnWord qpNum size))
  let m := store m (start + 8) (beBytes 4 fmCeSe)
  store m (start + IMM) (leBytes 4 imm)

/-- `set_raddr_seg`. -/
def setRaddrSeg (m : Mem) (rseg remoteAddr rkey : ℕ) : Mem :=
  let m := store m rseg (beBytes 8 remoteAddr)
  let m := store m (rseg + RADDR_RKEY) (beBytes 4 rkey)
  store m (rseg + 12) (leBytes 4 0)

/-- `set_atomic_seg`. -/
def setAtomicSeg (m : Mem) (aseg : ℕ) (opcode : WrOpcode) (swap compareAdd : ℕ) : Mem :=
  if opcode = .atomicCmpAndSwp then
    let m := store m aseg (beBytes 8 swap)
    store m (aseg + ATOMIC_COMPARE) (beBytes 8 compareAdd)
  else
    let m := store m aseg (beBytes 8 compareAdd)
    store m (aseg + ATOMIC_COMPARE) (leBytes 8 0)

/-- `set_data_ptr_seg`. -/
def setDataPtrSeg (m : Mem) (dseg length lkey addr : ℕ) : Mem :=
  let m := store m dseg (beBytes 4 length)
  let m := store m (dseg + DATA_LKEY) (beBytes 4 lkey)
  store m (dseg + DATA_ADDR) (beBytes 8 addr)

/-- The loop of `set_data_non_inl_seg`, within one block: an SGE of length 0 gets no
segment. -/
def setDataNonInlSeg (m : Mem) (dseg : ℕ) (sges : List Sge) : Mem :=
  match sges with
  | [] => m
  | sge :: sges =>
    if 0 < sge.length then
      setDataNonInlSeg
        (setDataPtrSeg m dseg sge.length.toNat sge.lkey.toNat sge.addr.toNat)
        (dseg + 16) sges
    else setDataNonInlSeg m dseg sges

/-! ### Whole WQEs -/

/-- What a control segment takes from the queue pair. -/
structure Head where
  qpNum : Fin (2 ^ 24)
  idx : UInt16
  fmCeSe : UInt8

/-- The immediate of a control segment. -/
def immInvkUmrk (wr : WorkRequest) : ℕ :=
  if wr.opcode = .rdmaWriteWithImm ∨ wr.opcode = .sendWithImm then wr.immData.toNat else 0

/-- The WQE of a READ or a WRITE. -/
def fillRdma (m : Mem) (ctrl : ℕ) (h : Head) (wr : WorkRequest) : Mem :=
  let m := setRaddrSeg m (ctrl + 16) wr.remoteAddr.toNat wr.rkey.toNat
  let m := setDataNonInlSeg m (ctrl + 32) wr.sgList
  setCtrlSeg m ctrl h.qpNum (mlx5IbOpcode wr.opcode) h.idx.toNat 0
    (2 + wr.dataSges.length) h.fmCeSe.toNat (immInvkUmrk wr)

/-- The WQE of an atomic operation. -/
def fillAtomic (m : Mem) (ctrl : ℕ) (h : Head) (wr : WorkRequest) : Mem :=
  let m := setRaddrSeg m (ctrl + 16) wr.remoteAddr.toNat wr.rkey.toNat
  let m := setAtomicSeg m (ctrl + 32) wr.opcode wr.swap.toNat
    wr.compareAdd.toNat
  let m := setDataNonInlSeg m (ctrl + 48) wr.sgList
  setCtrlSeg m ctrl h.qpNum (mlx5IbOpcode wr.opcode) h.idx.toNat 0
    (3 + wr.dataSges.length) h.fmCeSe.toNat (immInvkUmrk wr)

/-! ### The NIC's reading -/

/-- A control segment, decoded. -/
structure Ctrl where
  opmod : ℕ
  idx : ℕ
  opcode : ℕ
  qpNum : ℕ
  size : ℕ
  deriving Repr, DecidableEq

/-- The control segment at `a`. -/
def ctrlOf (m : Mem) (a : ℕ) : Ctrl :=
  let word := ofBe (load m a 4)
  let qpn := ofBe (load m (a + QPN_DS) 4)
  { opmod := word / 2 ^ 24, idx := word / 2 ^ 8 % 2 ^ 16, opcode := word % 2 ^ 8
    qpNum := qpn / 2 ^ 8, size := qpn % 2 ^ 6 }

/-- The address and the length of the `n` data segments from `dseg` on. -/
def dataSegs (m : Mem) (dseg : ℕ) : ℕ → List (ℕ × ℕ)
  | 0 => []
  | n + 1 =>
    (ofBe (load m (dseg + DATA_ADDR) 8), ofBe (load m dseg 4)) :: dataSegs m (dseg + 16) n

/-! ### The control segment reads back -/

theorem ctrlWord_eq {opmod idx opcode : ℕ} (hidx : idx < 2 ^ 16) (hop : opcode < 2 ^ 8) :
    ctrlWord opmod idx opcode = opmod * 2 ^ 24 + idx * 2 ^ 8 + opcode := by
  have hlow : idx <<< 8 ||| opcode = idx * 2 ^ 8 + opcode := by
    rw [Nat.shiftLeft_eq, Nat.mul_comm, ← Nat.two_pow_add_eq_or_of_lt hop]
  rw [ctrlWord, Nat.or_assoc, hlow, Nat.shiftLeft_eq, Nat.mul_comm opmod,
    ← Nat.two_pow_add_eq_or_of_lt (by omega)]
  omega

theorem qpnWord_eq {qpNum size : ℕ} (hsize : size < 2 ^ 6) :
    qpnWord qpNum size = qpNum * 2 ^ 8 + size := by
  have hmask : size &&& 0x3F = size := by
    rw [show 0x3F = 2 ^ 6 - 1 from rfl, Nat.and_two_pow_sub_one_eq_mod, Nat.mod_eq_of_lt hsize]
  rw [qpnWord, hmask, Nat.shiftLeft_eq, Nat.mul_comm,
    ← Nat.two_pow_add_eq_or_of_lt (by omega)]

/-- The NIC reads back what was filled in. -/
theorem ctrlOf_eq {m : Mem} {a opmod idx opcode qpNum size : ℕ}
    (hopmod : opmod < 2 ^ 8) (hidx : idx < 2 ^ 16) (hop : opcode < 2 ^ 8)
    (hqp : qpNum < 2 ^ 24) (hsize : size < 2 ^ 6)
    (h : load m a 8 = beBytes 4 (ctrlWord opmod idx opcode) ++ beBytes 4 (qpnWord qpNum size)) :
    ctrlOf m a = { opmod, idx, opcode, qpNum, size } := by
  obtain ⟨hword, hqpn⟩ := List.append_inj ((load_add m a 4 4).symm.trans h) (by simp)
  rw [ctrlOf, hword, hqpn, ctrlWord_eq hidx hop, qpnWord_eq hsize, ofBe_beBytes (by omega),
    ofBe_beBytes (by omega)]
  simp only [Ctrl.mk.injEq]
  omega

/-- The control segment of a filled WQE. -/
theorem Head.ctrlOf_eq {m : Mem} {a opcode size : ℕ} (h : Head) (hop : opcode < 2 ^ 8)
    (hsize : size < 2 ^ 6)
    (hload : load m a 8 =
      beBytes 4 (ctrlWord 0 h.idx.toNat opcode) ++ beBytes 4 (qpnWord h.qpNum size)) :
    ctrlOf m a = ⟨0, h.idx.toNat, opcode, h.qpNum, size⟩ :=
  Rdma.ctrlOf_eq (by decide) h.idx.toNat_lt hop h.qpNum.isLt hsize hload

/-- The opcode alone needs the first word alone. -/
theorem opcode_ctrlOf {m : Mem} {a opmod idx opcode : ℕ} (hopmod : opmod < 2 ^ 8)
    (hidx : idx < 2 ^ 16) (hop : opcode < 2 ^ 8)
    (h : load m a 4 = beBytes 4 (ctrlWord opmod idx opcode)) : (ctrlOf m a).opcode = opcode := by
  simp only [ctrlOf]
  rw [h, ctrlWord_eq hidx hop, ofBe_beBytes (by omega)]
  omega

theorem ctrlOf_congr {m m' : Mem} {a : ℕ} (h : load m' a 8 = load m a 8) :
    ctrlOf m' a = ctrlOf m a := by
  obtain ⟨hword, hqpn⟩ := List.append_inj (load_add m' a 4 4 ▸ load_add m a 4 4 ▸ h) (by simp)
  rw [ctrlOf, ctrlOf, hword, hqpn]

/-- The bytes of a control word without `opmod`. -/
theorem beBytes_ctrlWord (idx opcode : ℕ) (hidx : idx < 2 ^ 16) (hop : opcode < 2 ^ 8) :
    beBytes 4 (ctrlWord 0 idx opcode) =
      [0, UInt8.ofNat (idx / 2 ^ 8), UInt8.ofNat idx, UInt8.ofNat opcode] := by
  have hbyte {x y : ℕ} (h : x % 2 ^ 8 = y % 2 ^ 8) : UInt8.ofNat x = UInt8.ofNat y := by
    rw [← UInt8.toNat_inj, UInt8.toNat_ofNat', UInt8.toNat_ofNat', h]
  rw [ctrlWord_eq hidx hop]
  simp only [beBytes, leBytes, List.reverse_cons, List.reverse_nil, List.nil_append,
    List.cons_append, List.cons.injEq, and_true]
  exact ⟨hbyte (y := 0) (by omega), hbyte (by omega), hbyte (by omega), hbyte (by omega)⟩

/-! ### What a filled WQE holds -/

theorem load_setDataPtrSeg_of_disjoint {m : Mem} {a n dseg length lkey addr : ℕ}
    (h : a + n ≤ dseg ∨ dseg + 16 ≤ a) :
    load (setDataPtrSeg m dseg length lkey addr) a n = load m a n := by
  simp (disch := omega) only [setDataPtrSeg, DATA_LKEY, DATA_ADDR,
    load_store_beBytes_of_disjoint]

theorem load_setDataNonInlSeg_of_disjoint {m : Mem} {a n dseg : ℕ} {sges : List Sge}
    (h : a + n ≤ dseg ∨ dseg + 16 * sges.length ≤ a) :
    load (setDataNonInlSeg m dseg sges) a n = load m a n := by
  induction sges generalizing m dseg with
  | nil => rfl
  | cons sge sges ih =>
    rw [List.length_cons] at h
    rw [setDataNonInlSeg]
    split
    · rw [ih (by omega), load_setDataPtrSeg_of_disjoint (by omega)]
    · exact ih (by omega)

/-- Data segments are the same where the memory is. -/
theorem dataSegs_congr {m m' : Mem} {dseg n : ℕ}
    (h : ∀ a k, dseg ≤ a → a + k ≤ dseg + 16 * n → load m' a k = load m a k) :
    dataSegs m' dseg n = dataSegs m dseg n := by
  induction n generalizing dseg with
  | zero => rfl
  | succ n ih =>
    simp only [dataSegs, DATA_ADDR]
    rw [h (dseg + 8) 8 (by omega) (by omega), h dseg 4 (by omega) (by omega),
      ih fun a k ha hk => h a k (by omega) (by omega)]

/-- Every SGE with bytes in it gets its segment. -/
theorem dataSegs_setDataNonInlSeg (m : Mem) (dseg : ℕ) (sges : List Sge) :
    dataSegs (setDataNonInlSeg m dseg sges) dseg
        (sges.filter fun sge => 0 < sge.length).length =
      (sges.filter fun sge => 0 < sge.length).map fun sge =>
        (sge.addr.toNat, sge.length.toNat) := by
  induction sges generalizing m dseg with
  | nil => rfl
  | cons sge sges ih =>
    rw [setDataNonInlSeg]
    -- the segments after the first lie behind it
    by_cases hpos : 0 < sge.length
    · rw [if_pos hpos, List.filter_cons_of_pos (by simpa using hpos), List.length_cons, dataSegs,
        ih, load_setDataNonInlSeg_of_disjoint (by simp only [DATA_ADDR]; omega),
        load_setDataNonInlSeg_of_disjoint (by omega), List.map_cons]
      have haddr := sge.addr.toNat_lt
      have hlength := sge.length.toNat_lt
      simp (disch := omega) only [setDataPtrSeg, DATA_LKEY, DATA_ADDR, load_store_beBytes,
        load_store_beBytes_of_disjoint, ofBe_beBytes]
    · rw [if_neg hpos, List.filter_cons_of_neg (by simpa using hpos), ih]

section

variable {m : Mem} {a n start qpNum opcode idx opmod size fmCeSe imm : ℕ}

theorem load_setCtrlSeg_of_disjoint (h : a + n ≤ start ∨ start + 16 ≤ a) :
    load (setCtrlSeg m start qpNum opcode idx opmod size fmCeSe imm) a n = load m a n := by
  simp (disch := omega) only [setCtrlSeg, QPN_DS, IMM, load_store_beBytes_of_disjoint,
    load_store_leBytes_of_disjoint]

/-- The first two words of a control segment. -/
theorem load_setCtrlSeg :
    load (setCtrlSeg m start qpNum opcode idx opmod size fmCeSe imm) start 8 =
      beBytes 4 (ctrlWord opmod idx opcode) ++ beBytes 4 (qpnWord qpNum size) := by
  rw [load_add _ _ 4 4]
  simp (disch := omega) only [setCtrlSeg, QPN_DS, IMM, load_store_beBytes,
    load_store_beBytes_of_disjoint, load_store_leBytes_of_disjoint]

end

theorem load_setRaddrSeg_of_disjoint {m : Mem} {a n rseg remoteAddr rkey : ℕ}
    (h : a + n ≤ rseg ∨ rseg + 16 ≤ a) :
    load (setRaddrSeg m rseg remoteAddr rkey) a n = load m a n := by
  simp (disch := omega) only [setRaddrSeg, RADDR_RKEY, load_store_beBytes_of_disjoint,
    load_store_leBytes_of_disjoint]

theorem load_setAtomicSeg_of_disjoint {m : Mem} {a n aseg swap compareAdd : ℕ}
    {opcode : WrOpcode} (h : a + n ≤ aseg ∨ aseg + 16 ≤ a) :
    load (setAtomicSeg m aseg opcode swap compareAdd) a n = load m a n := by
  rw [setAtomicSeg]
  split <;> simp (disch := omega) only [ATOMIC_COMPARE, load_store_beBytes_of_disjoint,
    load_store_leBytes_of_disjoint]

section

variable {m : Mem} {ctrl a n : ℕ} {h : Head} {wr : WorkRequest}

theorem load_fillRdma :
    load (fillRdma m ctrl h wr) ctrl 8 =
      beBytes 4 (ctrlWord 0 h.idx.toNat (mlx5IbOpcode wr.opcode)) ++
        beBytes 4 (qpnWord h.qpNum (2 + wr.dataSges.length)) :=
  load_setCtrlSeg

theorem load_fillAtomic :
    load (fillAtomic m ctrl h wr) ctrl 8 =
      beBytes 4 (ctrlWord 0 h.idx.toNat (mlx5IbOpcode wr.opcode)) ++
        beBytes 4 (qpnWord h.qpNum (3 + wr.dataSges.length)) :=
  load_setCtrlSeg

theorem load_fillRdma_of_disjoint
    (hd : a + n ≤ ctrl ∨ ctrl + 16 * (2 + wr.sgList.length) ≤ a) :
    load (fillRdma m ctrl h wr) a n = load m a n := by
  rw [fillRdma, load_setCtrlSeg_of_disjoint (by omega),
    load_setDataNonInlSeg_of_disjoint (by omega), load_setRaddrSeg_of_disjoint (by omega)]

theorem load_fillAtomic_of_disjoint
    (hd : a + n ≤ ctrl ∨ ctrl + 16 * (3 + wr.sgList.length) ≤ a) :
    load (fillAtomic m ctrl h wr) a n = load m a n := by
  rw [fillAtomic, load_setCtrlSeg_of_disjoint (by omega),
    load_setDataNonInlSeg_of_disjoint (by omega), load_setAtomicSeg_of_disjoint (by omega),
    load_setRaddrSeg_of_disjoint (by omega)]

theorem dataSegs_fillRdma :
    dataSegs (fillRdma m ctrl h wr) (ctrl + 32) wr.dataSges.length =
      wr.dataSges.map fun sge => (sge.addr.toNat, sge.length.toNat) := by
  rw [fillRdma, dataSegs_congr fun _ _ ha _ => load_setCtrlSeg_of_disjoint (by omega)]
  exact dataSegs_setDataNonInlSeg _ _ _

theorem dataSegs_fillAtomic :
    dataSegs (fillAtomic m ctrl h wr) (ctrl + 48) wr.dataSges.length =
      wr.dataSges.map fun sge => (sge.addr.toNat, sge.length.toNat) := by
  rw [fillAtomic, dataSegs_congr fun _ _ ha _ => load_setCtrlSeg_of_disjoint (by omega)]
  exact dataSegs_setDataNonInlSeg _ _ _

end

end Rdma
