/-
The conditional answer of the offload, byte by byte (`offload_hash`, `test.c`).

An iteration posts a READ (`sr0`) and a CAS (`sr1`) on the worker and a
WRITE_WITH_IMM (`sr2`) on the client, and rewrites all three in place: the WRITE
becomes a NOP whose first eight bytes are the target of the CAS, the READ writes
the key it finds into that target, and a request writes the key it asks for into
the comparand.  The CAS then puts the WRITE back exactly when the keys agree.

* `offload_exact` — the WRITE is back, with the address of the bucket in it,
  exactly for a bucket whose key is the key of the request reversed;
* `Posted.swapped`, `Swapped.armed`, `Armed.received`, `Received.fetched`,
  `Fetched.answered` — what each stage leaves for the next.
-/
import RednRdma.Segment
import RednRdma.Verbs

namespace Rdma

open Bytes

namespace OffloadPatch

/-! ### The posted requests -/

abbrev IO_SIZE : UInt32 := 65536

/-- Where an iteration has its WQEs, each in a block of its queue, and the buffer
the CAS returns the old value to. -/
structure Layout where
  sr0 : ℕ
  sr1 : ℕ
  sr2 : ℕ
  buffer : UInt64
  fits : sr2 + 64 ≤ 2 ^ 64
  apart01 : sr0 + 64 ≤ sr1 ∨ sr1 + 64 ≤ sr0
  apart02 : sr0 + 64 ≤ sr2 ∨ sr2 + 64 ≤ sr0
  apart12 : sr1 + 64 ≤ sr2 ∨ sr2 + 64 ≤ sr1
  bufferApart : buffer.toNat + 8 ≤ sr2 ∨ sr2 + 64 ≤ buffer.toNat

instance : Inhabited Layout where
  default :=
    { sr0 := 0, sr1 := 64, sr2 := 128, buffer := 4096
      fits := by decide, apart01 := by decide, apart02 := by decide, apart12 := by decide
      bufferApart := by decide }

/-- What an iteration fills its WQEs with. -/
structure Iteration where
  k : ℕ
  head0 : Head
  head1 : Head
  head2 : Head
  /-- `MR_DATA` of the worker, remote and local, and the keys for the READ. -/
  readRemote : UInt64
  readLocal : UInt64
  readLkey : UInt32
  readRkey : UInt32
  /-- The keys for the CAS. -/
  casLkey : UInt64
  casRkey : UInt64
  /-- `MR_DATA` of the client, remote and local. -/
  writeRemote : UInt64
  writeLocal : UInt64
  writeMr : IbvMr
  writeRemoteMr : MrContext

/-- The request of `post_hash_read`, but for its id. -/
def postHashRead (it : Iteration) : WorkRequest :=
  { sgList := [{ addr := it.readLocal, length := 3, lkey := it.readLkey },
      { addr := it.readLocal, length := 8, lkey := it.readLkey }]
    opcode := .rdmaRead
    remoteAddr := it.readRemote, rkey := it.readRkey
    flags := { signaled := true } }

/-- The metadata of `post_dummy_write(client, IO_SIZE, k + 1)`. -/
def postDummyWrite (it : Iteration) : RdmaMeta :=
  { addr := it.writeRemote, imm := UInt32.ofNat (it.k + 1)
    sgeEntries := [{ addr := it.writeLocal, length := IO_SIZE, lkey := 0 }] }

/-- The request `send_rdma_operation` makes of it. -/
def dummyWriteRequest (it : Iteration) : WorkRequest :=
  { sgList := [{ addr := it.writeLocal, length := IO_SIZE, lkey := it.writeMr.lkey }]
    opcode := .rdmaWriteWithImm
    flags := { signaled := true }
    remoteAddr := it.writeRemote, rkey := it.writeRemoteMr.rkey
    immData := htonl (UInt32.ofNat (it.k + 1)) }

theorem rdmaRequest_postDummyWrite (it : Iteration) :
    rdmaRequest (some it.writeMr) (some it.writeRemoteMr) .rdmaWriteWithImm (postDummyWrite it) =
      .ok (dummyWriteRequest it) := rfl

/-- Each of the three takes one block of its queue. -/
theorem blocks_eq_one {q : DriverQp} {l : Layout} {it : Iteration} {wr : WorkRequest} {size : ℕ}
    (hwr : wr ∈ [postHashRead it, casRequest l.buffer l.buffer 0 1 it.casLkey it.casRkey 1,
      dummyWriteRequest it])
    (hsize : q.wqeSize wr = some size) : divRoundUp (size * 16) SEND_WQE_BB = 1 := by
  simp only [List.mem_cons, List.not_mem_nil, or_false] at hwr
  rcases hwr with rfl | rfl | rfl
  · obtain ⟨header, hheader, rfl, -⟩ := DriverQp.wqeSize_of_not_inl rfl hsize
    obtain rfl := Option.some_inj.mp hheader
    show divRoundUp ((2 + 2) * 16) 64 = 1
    decide
  · obtain ⟨header, hheader, rfl, -⟩ := DriverQp.wqeSize_of_not_inl rfl hsize
    obtain rfl := Option.some_inj.mp hheader
    show divRoundUp ((3 + 1) * 16) 64 = 1
    decide
  · obtain ⟨header, hheader, rfl, -⟩ := DriverQp.wqeSize_of_not_inl rfl hsize
    obtain rfl := Option.some_inj.mp hheader
    show divRoundUp ((2 + 1) * 16) 64 = 1
    decide

/-- The memory once the driver has laid out the three WQEs. -/
def post (m : Mem) (l : Layout) (it : Iteration) : Mem :=
  let m := fillRdma m l.sr0 it.head0 (postHashRead it)
  let m := fillAtomic m l.sr1 it.head1
    (casRequest l.buffer l.buffer 0 1 it.casLkey it.casRkey 1)
  fillRdma m l.sr2 it.head2 (dummyWriteRequest it)

/-! ### The patches of the host -/

/-- The first patches, up to `sr1_atomic->swap_add`. -/
def patchSwap (m : Mem) (l : Layout) : Mem :=
  let m := store m (l.sr0 + 32 + DATA_ADDR) (beBytes 8 (l.sr2 + QPN_DS))
  let m := store m (l.sr0 + 48 + DATA_ADDR) (beBytes 8 (l.sr2 + 32 + DATA_ADDR))
  let m := store m (l.sr0 + FM_CE_SE) [0]
  let m := store m (l.sr2 + FM_CE_SE) [0]
  let m := store m l.sr2 (leBytes 4 (ofLe (load m l.sr2 4) ||| 0x09000000))
  store m (l.sr1 + 32) (beBytes 8 (ofLe (load m l.sr2 8)))

/-- The other patches, up to `sr1_atomic->compare`. -/
def patchCompare (m : Mem) (l : Layout) (k : ℕ) : Mem :=
  let m := store m (l.sr2 + QPN_DS) (beBytes 4 (0 <<< 8 ||| 3))
  let m := store m l.sr2 (leBytes 4 (ofLe (load m l.sr2 4) &&& 0x00FFFFFF))
  let m := store m (l.sr2 + IMM) (beBytes 4 (k + 1))
  let m := store m (l.sr1 + 16) (beBytes 8 l.sr2)
  store m (l.sr1 + 32 + ATOMIC_COMPARE) (beBytes 8 (ofLe (load m l.sr2 8)))

/-- An iteration of `offload_hash`: its posts and its patches. -/
def offloadHash (m : Mem) (l : Layout) (it : Iteration) : Mem :=
  patchCompare (patchSwap (post m l it) l) l it.k

/-- `recv_meta`, the SGEs of the RECV the iteration ends with. -/
def recvSges (l : Layout) : List (ℕ × ℕ) :=
  [(l.sr1 + 32 + ATOMIC_COMPARE + 1, 3), (l.sr0 + 16, 8)]

/-! ### The request of the client -/

/-- `post_get_req_async`: the buffer as it is filled, and the SGEs of the SEND. -/
def postGetReqAsync (m : Mem) (baseAddr : ℕ) (key : UInt32) (addr : UInt64) :
    Mem × List (ℕ × ℕ) :=
  let m := store m baseAddr [0]
  let m := store m (baseAddr + 1) [0]
  let m := store m (baseAddr + 2) [key.toUInt8]
  let m := store m (baseAddr + 4) (beBytes 8 addr.toNat)
  (m, [(baseAddr, 3), (baseAddr + 4, 8)])

/-! ### The NIC -/

/-- A READ: what is at the remote address goes to the data segments. -/
def runRead (m : Mem) (ctrl : ℕ) : Mem :=
  let segs := dataSegs m (ctrl + 32) ((ctrlOf m ctrl).size - 2)
  let raddr := ofBe (load m (ctrl + 16) 8)
  scatter m segs (load m raddr (segs.map Prod.snd).sum)

/-- A CAS: the operands are big-endian, the target is a little-endian integer, and
its old bytes go to the data segment. -/
def runCas (m : Mem) (ctrl : ℕ) : Mem :=
  let segs := dataSegs m (ctrl + 48) ((ctrlOf m ctrl).size - 3)
  let raddr := ofBe (load m (ctrl + 16) 8)
  let swap := ofBe (load m (ctrl + 32) 8)
  let compare := ofBe (load m (ctrl + 32 + ATOMIC_COMPARE) 8)
  let old := load m raddr 8
  let m := if ofLe old = compare then store m raddr (leBytes 8 swap) else m
  scatter m segs old

/-- The WQE at `ctrl`, if it is one of the worker's. -/
def runWqe (m : Mem) (ctrl : ℕ) : Mem :=
  if (ctrlOf m ctrl).opcode = MLX5_OPCODE_RDMA_READ then runRead m ctrl
  else if (ctrlOf m ctrl).opcode = MLX5_OPCODE_ATOMIC_CS then runCas m ctrl
  else m

/-- The memory once the RECV has taken in a request. -/
def recv (m : Mem) (l : Layout) (it : Iteration) (request : List UInt8) : Mem :=
  scatter (offloadHash m l it) (recvSges l) request

/-- The memory after the READ and the CAS. -/
def answer (m : Mem) (l : Layout) (it : Iteration) (request : List UInt8) : Mem :=
  runWqe (runWqe (recv m l it request) l.sr0) l.sr1

/-- The fields of `struct hash_bucket` the READ covers, as bytes. -/
structure Bucket where
  key : List UInt8
  addr : List UInt8
  deriving Repr, DecidableEq

/-- The bucket at an address. -/
def bucketAt (m : Mem) (a : ℕ) : Bucket := ⟨load m a 3, load m (a + 3) 8⟩

/-- The first eight bytes of `sr2` as the driver wrote them. -/
def writeHead (it : Iteration) : List UInt8 :=
  beBytes 4 (ctrlWord 0 it.head2.idx.toNat MLX5_OPCODE_RDMA_WRITE_IMM) ++
    beBytes 4 (qpnWord it.head2.qpNum 3)

/-- The first word of `sr2` with the opcode cleared. -/
def nopWord (it : Iteration) : List UInt8 :=
  beBytes 4 (ctrlWord 0 it.head2.idx.toNat MLX5_OPCODE_NOP)

/-! ### The posted WQEs -/

/-- After the posts. -/
structure Posted (l : Layout) (it : Iteration) (m : Mem) : Prop where
  head0 : ctrlOf m l.sr0 = ⟨0, it.head0.idx.toNat, MLX5_OPCODE_RDMA_READ, it.head0.qpNum, 4⟩
  segs0 : (dataSegs m (l.sr0 + 32) 2).map Prod.snd = [3, 8]
  head1 : ctrlOf m l.sr1 = ⟨0, it.head1.idx.toNat, MLX5_OPCODE_ATOMIC_CS, it.head1.qpNum, 4⟩
  segs1 : dataSegs m (l.sr1 + 48) 1 = [(l.buffer.toNat, 8)]
  head2 : load m l.sr2 8 = writeHead it

section

variable {m : Mem} {l : Layout} {it : Iteration} {a n : ℕ}

theorem load_post_sr1 (ha : l.sr1 ≤ a) (hn : a + n ≤ l.sr1 + 64) :
    load (post m l it) a n =
      load (fillAtomic (fillRdma m l.sr0 it.head0 (postHashRead it)) l.sr1 it.head1
        (casRequest l.buffer l.buffer 0 1 it.casLkey it.casRkey 1)) a n := by
  have h12 := l.apart12
  have hlen : (dummyWriteRequest it).sgList.length = 1 := rfl
  rw [post, load_fillRdma_of_disjoint (by omega)]

theorem load_post_sr0 (ha : l.sr0 ≤ a) (hn : a + n ≤ l.sr0 + 64) :
    load (post m l it) a n = load (fillRdma m l.sr0 it.head0 (postHashRead it)) a n := by
  have h01 := l.apart01
  have h02 := l.apart02
  have hlen : (dummyWriteRequest it).sgList.length = 1 := rfl
  have hlen' : (casRequest l.buffer l.buffer 0 1 it.casLkey it.casRkey 1).sgList.length = 1 := rfl
  rw [post, load_fillRdma_of_disjoint (by omega), load_fillAtomic_of_disjoint (by omega)]

end

theorem posted_post (m : Mem) (l : Layout) (it : Iteration) : Posted l it (post m l it) where
  head0 := by
    rw [ctrlOf_congr (load_post_sr0 (by omega) (by omega))]
    exact it.head0.ctrlOf_eq (by decide) (by decide) load_fillRdma
  segs0 := by
    rw [dataSegs_congr fun a k ha hk => load_post_sr0 (by omega) (by omega)]
    exact congrArg (List.map Prod.snd) dataSegs_fillRdma
  head1 := by
    rw [ctrlOf_congr (load_post_sr1 (by omega) (by omega))]
    exact it.head1.ctrlOf_eq (by decide) (by decide) load_fillAtomic
  segs1 := by
    rw [dataSegs_congr fun a k ha hk => load_post_sr1 (by omega) (by omega)]
    exact dataSegs_fillAtomic
  head2 := load_fillRdma

/-! ### Masks on a byte-swapped word -/

/-- The mask that is to set the opcode leaves it as the driver wrote it. -/
theorem leBytes_or_opcode {word : List UInt8} {idx : ℕ} (hidx : idx < 2 ^ 16)
    (h : word = beBytes 4 (ctrlWord 0 idx MLX5_OPCODE_RDMA_WRITE_IMM)) :
    leBytes 4 (ofLe word ||| 0x09000000) =
      beBytes 4 (ctrlWord 0 idx MLX5_OPCODE_RDMA_WRITE_IMM) := by
  have hword : leBytes 4 (ofLe word) = word :=
    leBytes_ofLe_of_length (by rw [h, length_beBytes])
  have hmask : leBytes 4 0x09000000 = [0, 0, 0, 9] := by decide
  rw [leBytes_or, hword, hmask, h, beBytes_ctrlWord idx _ hidx (by decide)]
  simp [MLX5_OPCODE_RDMA_WRITE_IMM]

/-- The mask on the swapped word clears the opcode and nothing else. -/
theorem leBytes_and_opcode {word : List UInt8} {idx opcode : ℕ} (hidx : idx < 2 ^ 16)
    (hop : opcode < 2 ^ 8) (h : word = beBytes 4 (ctrlWord 0 idx opcode)) :
    leBytes 4 (ofLe word &&& 0x00FFFFFF) = beBytes 4 (ctrlWord 0 idx MLX5_OPCODE_NOP) := by
  have hword : leBytes 4 (ofLe word) = word :=
    leBytes_ofLe_of_length (by rw [h, length_beBytes])
  have hmask : leBytes 4 0x00FFFFFF = [255, 255, 255, 0] := by decide
  rw [leBytes_and, hword, hmask, h, beBytes_ctrlWord idx _ hidx hop,
    beBytes_ctrlWord idx _ hidx (by decide)]
  simp [and_255, MLX5_OPCODE_NOP]

/-! ### From stage to stage -/

/-- What stays as it is from the first patches on: the READ goes to `sr2`, the CAS
would write the WRITE back and returns the old value to the buffer. -/
structure Wired (l : Layout) (it : Iteration) (m : Mem) : Prop where
  head0 : ctrlOf m l.sr0 = ⟨0, it.head0.idx.toNat, MLX5_OPCODE_RDMA_READ, it.head0.qpNum, 4⟩
  segs0 : dataSegs m (l.sr0 + 32) 2 = [(l.sr2 + 4, 3), (l.sr2 + 40, 8)]
  head1 : ctrlOf m l.sr1 = ⟨0, it.head1.idx.toNat, MLX5_OPCODE_ATOMIC_CS, it.head1.qpNum, 4⟩
  swap : load m (l.sr1 + 32) 8 = (writeHead it).reverse
  segs1 : dataSegs m (l.sr1 + 48) 1 = [(l.buffer.toNat, 8)]

theorem Wired.congr {l : Layout} {it : Iteration} {m m' : Mem} (h : Wired l it m)
    (hhead0 : load m' l.sr0 8 = load m l.sr0 8)
    (hsegs0 : ∀ a n, l.sr0 + 32 ≤ a → a + n ≤ l.sr0 + 64 → load m' a n = load m a n)
    (hhead1 : load m' l.sr1 8 = load m l.sr1 8)
    (hswap : load m' (l.sr1 + 32) 8 = load m (l.sr1 + 32) 8)
    (hsegs1 : ∀ a n, l.sr1 + 48 ≤ a → a + n ≤ l.sr1 + 64 → load m' a n = load m a n) :
    Wired l it m' where
  head0 := (ctrlOf_congr hhead0).trans h.head0
  segs0 := (dataSegs_congr hsegs0).trans h.segs0
  head1 := (ctrlOf_congr hhead1).trans h.head1
  swap := hswap.trans h.swap
  segs1 := (dataSegs_congr hsegs1).trans h.segs1

/-- After the first patches. -/
structure Swapped (l : Layout) (it : Iteration) (m : Mem) : Prop extends Wired l it m where
  head2 : load m l.sr2 8 = writeHead it

section

variable {m : Mem} {l : Layout} {a n k : ℕ}

/-- The first patches touch two addresses and a byte of `sr0`, the swap of `sr1` and
the head of `sr2`. -/
theorem load_patchSwap (h0 : a + n ≤ l.sr0 + 11 ∨ l.sr0 + 12 ≤ a ∧ a + n ≤ l.sr0 + 40 ∨
      l.sr0 + 48 ≤ a ∧ a + n ≤ l.sr0 + 56 ∨ l.sr0 + 64 ≤ a)
    (h1 : a + n ≤ l.sr1 + 32 ∨ l.sr1 + 40 ≤ a)
    (h2 : a + n ≤ l.sr2 ∨ l.sr2 + 4 ≤ a ∧ a + n ≤ l.sr2 + 11 ∨ l.sr2 + 12 ≤ a) :
    load (patchSwap m l) a n = load m a n := by
  simp (disch := omega) only [patchSwap, DATA_ADDR, QPN_DS, FM_CE_SE,
    load_store_beBytes_of_disjoint, load_store_leBytes_of_disjoint, load_store_byte_of_disjoint]

/-- The swap operand is the image of the WRITE. -/
theorem load_patchSwap_swap :
    load (patchSwap m l) (l.sr1 + 32) 8 = (load (patchSwap m l) l.sr2 8).reverse := by
  have h12 := l.apart12
  exact load_store_swapped (by omega)

/-- The other patches touch the head of `sr2` and its immediate, and the remote
address and the comparand of `sr1`. -/
theorem load_patchCompare
    (h1 : a + n ≤ l.sr1 + 16 ∨ l.sr1 + 24 ≤ a ∧ a + n ≤ l.sr1 + 40 ∨ l.sr1 + 48 ≤ a)
    (h2 : a + n ≤ l.sr2 ∨ l.sr2 + 16 ≤ a) :
    load (patchCompare m l k) a n = load m a n := by
  simp (disch := omega) only [patchCompare, ATOMIC_COMPARE, QPN_DS, IMM,
    load_store_beBytes_of_disjoint, load_store_leBytes_of_disjoint]

/-- The compare operand is the image of the NOP. -/
theorem load_patchCompare_compare :
    load (patchCompare m l k) (l.sr1 + 40) 8 = (load (patchCompare m l k) l.sr2 8).reverse := by
  have h12 := l.apart12
  exact load_store_swapped (a := l.sr1 + 40) (by omega)

/-- What the NOP is compared as: no opcode, no QP number, the size of the WRITE. -/
theorem load_patchCompare_head {idx opcode : ℕ} (hidx : idx < 2 ^ 16) (hop : opcode < 2 ^ 8)
    (hword : load m l.sr2 4 = beBytes 4 (ctrlWord 0 idx opcode)) :
    load (patchCompare m l k) l.sr2 8 =
      beBytes 4 (ctrlWord 0 idx MLX5_OPCODE_NOP) ++ [0, 0, 0, 3] := by
  have h12 := l.apart12
  have hand := leBytes_and_opcode hidx hop hword
  have hsize : beBytes 4 (0 <<< 8 ||| 3) = [0, 0, 0, 3] := by decide
  rw [load_add _ _ 4 4]
  simp (disch := omega) only [patchCompare, ATOMIC_COMPARE, QPN_DS, IMM, load_store_beBytes,
    load_store_leBytes, load_store_beBytes_of_disjoint, load_store_leBytes_of_disjoint]
  rw [hand, hsize]

end

theorem Posted.swapped {l : Layout} {it : Iteration} {m : Mem} (h : Posted l it m) :
    Swapped l it (patchSwap m l) := by
  have h01 := l.apart01
  have h02 := l.apart02
  have h12 := l.apart12
  have hfits := l.fits
  obtain ⟨hword, hqpn⟩ :=
    List.append_inj ((load_add m l.sr2 4 4).symm.trans h.head2) (by simp)
  -- the patches change where the READ writes to, not how much
  have hlens : ofBe (load m (l.sr0 + 32) 4) = 3 ∧ ofBe (load m (l.sr0 + 48) 4) = 8 := by
    simpa [dataSegs] using h.segs0
  have hor := leBytes_or_opcode it.head2.idx.toNat_lt hword
  have hhead2 : load (patchSwap m l) l.sr2 8 = writeHead it := by
    rw [load_add _ _ 4 4, load_patchSwap (a := l.sr2 + 4) (by omega) (by omega) (by omega), hqpn]
    simp (disch := omega) only [patchSwap, DATA_ADDR, QPN_DS, FM_CE_SE, load_store_leBytes,
      load_store_beBytes_of_disjoint, load_store_byte_of_disjoint]
    rw [hor, writeHead]
  refine ⟨⟨?_, ?_, ?_, ?_, ?_⟩, hhead2⟩
  · rw [ctrlOf_congr (load_patchSwap (by omega) (by omega) (by omega)), h.head0]
  · simp only [dataSegs, DATA_ADDR]
    rw [load_patchSwap (a := l.sr0 + 32) (by omega) (by omega) (by omega),
      load_patchSwap (a := l.sr0 + 32 + 16) (by omega) (by omega) (by omega), hlens.1, hlens.2]
    simp (disch := omega) only [patchSwap, DATA_ADDR, QPN_DS, FM_CE_SE, load_store_beBytes,
      load_store_beBytes_of_disjoint, load_store_leBytes_of_disjoint, load_store_byte_of_disjoint,
      ofBe_beBytes]
  · rw [ctrlOf_congr (load_patchSwap (by omega) (by omega) (by omega)), h.head1]
  · -- the swap operand was read after the opcode was set and before it is cleared
    rw [load_patchSwap_swap, hhead2]
  · rw [dataSegs_congr fun a k ha hk => load_patchSwap (by omega) (by omega) (by omega), h.segs1]

/-- After the other patches: the WRITE is a NOP and the CAS compares it with one. -/
structure Armed (l : Layout) (it : Iteration) (m : Mem) : Prop extends Wired l it m where
  target : ofBe (load m (l.sr1 + 16) 8) = l.sr2
  compare : load m (l.sr1 + 40) 8 = (nopWord it ++ [0, 0, 0, 3]).reverse
  head2 : load m l.sr2 8 = nopWord it ++ [0, 0, 0, 3]

theorem Swapped.armed {l : Layout} {it : Iteration} {m : Mem} (h : Swapped l it m) (k : ℕ) :
    Armed l it (patchCompare m l k) := by
  have h01 := l.apart01
  have h02 := l.apart02
  have h12 := l.apart12
  have hfits := l.fits
  obtain ⟨hword, -⟩ := List.append_inj ((load_add m l.sr2 4 4).symm.trans h.head2) (by simp)
  have hhead2 : load (patchCompare m l k) l.sr2 8 = nopWord it ++ [0, 0, 0, 3] :=
    load_patchCompare_head it.head2.idx.toNat_lt (by decide) hword
  refine ⟨h.toWired.congr ?_ ?_ ?_ ?_ ?_, ?_, ?_, hhead2⟩
  · exact load_patchCompare (by omega) (by omega)
  · exact fun a n ha hn => load_patchCompare (by omega) (by omega)
  · exact load_patchCompare (by omega) (by omega)
  · exact load_patchCompare (by omega) (by omega)
  · exact fun a n ha hn => load_patchCompare (by omega) (by omega)
  · rw [patchCompare, load_store_beBytes_of_disjoint (by simp only [ATOMIC_COMPARE]; omega),
      load_store_beBytes, ofBe_beBytes (by omega)]
  · rw [load_patchCompare_compare, hhead2]

theorem armed_offloadHash (m : Mem) (l : Layout) (it : Iteration) :
    Armed l it (offloadHash m l it) :=
  (posted_post m l it).swapped.armed it.k

/-- After the RECV of a request for the bucket at `addr` under a key. -/
structure Received (l : Layout) (it : Iteration) (key : List UInt8) (addr : ℕ) (m : Mem) : Prop
    extends Wired l it m where
  source : ofBe (load m (l.sr0 + 16) 8) = addr
  target : ofBe (load m (l.sr1 + 16) 8) = l.sr2
  compare : load m (l.sr1 + 40) 8 = (nopWord it ++ (key.reverse ++ [3])).reverse
  head2 : load m l.sr2 8 = nopWord it ++ [0, 0, 0, 3]

theorem Armed.received {l : Layout} {it : Iteration} {m : Mem} (h : Armed l it m)
    {key : List UInt8} (hkey : key.length = 3) (addr : UInt64) :
    Received l it key addr.toNat (scatter m (recvSges l) (key ++ beBytes 8 addr.toNat)) := by
  have h01 := l.apart01
  have h02 := l.apart02
  have h12 := l.apart12
  rw [recvSges, ATOMIC_COMPARE, scatter_pair hkey (length_beBytes _ _)]
  have hframe {a n : ℕ} (h0 : a + n ≤ l.sr0 + 16 ∨ l.sr0 + 24 ≤ a)
      (h1 : a + n ≤ l.sr1 + 41 ∨ l.sr1 + 44 ≤ a) :
      load (store (store m (l.sr1 + 32 + 8 + 1) key) (l.sr0 + 16) (beBytes 8 addr.toNat)) a n =
        load m a n := by
    rw [load_store_beBytes_of_disjoint (by omega), load_store_of_disjoint (by omega)]
  refine ⟨h.toWired.congr ?_ ?_ ?_ ?_ ?_, ?_, ?_, ?_, ?_⟩
  · exact hframe (by omega) (by omega)
  · exact fun a n ha hn => hframe (by omega) (by omega)
  · exact hframe (by omega) (by omega)
  · exact hframe (by omega) (by omega)
  · exact fun a n ha hn => hframe (by omega) (by omega)
  · rw [load_store_beBytes, ofBe_beBytes addr.toNat_lt]
  · rw [hframe (by omega) (by omega), h.target]
  · -- The key goes between the size and the word of the NOP.
    have hold : load m (l.sr1 + 40) 1 ++ (load m (l.sr1 + 41) 3 ++ load m (l.sr1 + 44) 4) =
        [3] ++ ([0, 0, 0] ++ (nopWord it).reverse) := by
      rw [← load_add, ← load_add, h.compare]
      simp
    obtain ⟨hsize, hrest⟩ := List.append_inj hold (by simp)
    obtain ⟨-, hword⟩ := List.append_inj hrest (by simp)
    rw [load_add _ _ 1 7, load_add _ _ 3 4, hframe (by omega) (by omega), hsize,
      hframe (a := l.sr1 + 40 + 1 + 3) (by omega) (by omega), hword,
      load_store_beBytes_of_disjoint (by omega), load_store_self hkey]
    simp
  · rw [hframe (by omega) (by omega), h.head2]

/-- After the READ: the key of the bucket is in the target of the CAS. -/
structure Fetched (l : Layout) (it : Iteration) (key : List UInt8) (b : Bucket) (m : Mem) : Prop
    extends Wired l it m where
  target : ofBe (load m (l.sr1 + 16) 8) = l.sr2
  compare : load m (l.sr1 + 40) 8 = (nopWord it ++ (key.reverse ++ [3])).reverse
  head2 : load m l.sr2 8 = nopWord it ++ (b.key ++ [3])
  addr2 : load m (l.sr2 + 40) 8 = b.addr

theorem Received.fetched {l : Layout} {it : Iteration} {key : List UInt8} {addr : ℕ} {m : Mem}
    (h : Received l it key addr m) :
    Fetched l it key (bucketAt m addr) (runWqe m l.sr0) := by
  have h01 := l.apart01
  have h02 := l.apart02
  have h12 := l.apart12
  have hrun : runWqe m l.sr0 =
      store (store m (l.sr2 + 4) (load m addr 3)) (l.sr2 + 40) (load m (addr + 3) 8) := by
    rw [runWqe, h.head0, if_pos rfl, runRead, h.head0, h.source]
    show scatter m (dataSegs m (l.sr0 + 32) 2)
      (load m addr ((dataSegs m (l.sr0 + 32) 2).map Prod.snd).sum) = _
    rw [h.segs0]
    show scatter m _ (load m addr (3 + 8)) = _
    rw [load_add, scatter_pair (length_load _ _ _) (length_load _ _ _)]
  have hframe {a n : ℕ} (h2 : a + n ≤ l.sr2 + 4 ∨ l.sr2 + 7 ≤ a ∧ a + n ≤ l.sr2 + 40 ∨
      l.sr2 + 48 ≤ a) : load (runWqe m l.sr0) a n = load m a n := by
    rw [hrun, load_store_of_disjoint (by rw [length_load]; omega),
      load_store_of_disjoint (by rw [length_load]; omega)]
  refine ⟨h.toWired.congr ?_ ?_ ?_ ?_ ?_, ?_, ?_, ?_, ?_⟩
  · exact hframe (by omega)
  · exact fun a n ha hn => hframe (by omega)
  · exact hframe (by omega)
  · exact hframe (by omega)
  · exact fun a n ha hn => hframe (by omega)
  · rw [hframe (by omega), h.target]
  · rw [hframe (by omega), h.compare]
  · -- Around the key, the word and the size stay.
    have hold : load m l.sr2 4 ++ (load m (l.sr2 + 4) 3 ++ load m (l.sr2 + 7) 1) =
        nopWord it ++ ([0, 0, 0] ++ [3]) := by
      rw [← load_add, ← load_add, h.head2]
      rfl
    obtain ⟨hword, hrest⟩ := List.append_inj hold (by simp [nopWord])
    obtain ⟨-, hsize⟩ := List.append_inj hrest (by simp)
    have hkey : load (runWqe m l.sr0) (l.sr2 + 4) 3 = load m addr 3 := by
      rw [hrun, load_store_of_disjoint (by omega), load_store_self (length_load _ _ _)]
    rw [load_add _ l.sr2 4 4, load_add _ (l.sr2 + 4) 3 1, hframe (by omega), hword, hkey,
      hframe (a := l.sr2 + 4 + 3) (by omega), hsize]
    rfl
  · rw [hrun, load_store_self (length_load _ _ _)]
    rfl

/-- After the CAS. -/
theorem Fetched.answered {l : Layout} {it : Iteration} {key : List UInt8} {b : Bucket} {m : Mem}
    (h : Fetched l it key b m) (hkey : key.length = 3) (hb : b.key.length = 3) :
    load (runWqe m l.sr1) l.sr2 8 =
        (if b.key = key.reverse then writeHead it else nopWord it ++ (b.key ++ [3])) ∧
      load (runWqe m l.sr1) (l.sr2 + 40) 8 = b.addr := by
  have hbuf := l.bufferApart
  -- both operands are the word of the NOP, a key and the size of the WRITE
  have hmatch : ofLe (load m l.sr2 8) = ofBe (load m (l.sr1 + 40) 8) ↔ b.key = key.reverse := by
    rw [h.head2, h.compare, ofBe, List.reverse_reverse]
    constructor
    · intro heq
      have hbytes := eq_of_ofLe_eq (by simp [hkey, hb]) heq
      exact List.append_cancel_right (List.append_cancel_left hbytes)
    · intro heq
      rw [heq]
  have hrun : runWqe m l.sr1 =
      store (if b.key = key.reverse then store m l.sr2 (writeHead it) else m) l.buffer.toNat
        (load m l.sr2 8) := by
    -- stored as it is read, the swap operand is the image once more
    have hswap : leBytes 8 (ofBe (load m (l.sr1 + 32) 8)) = writeHead it := by
      rw [h.swap, ofBe, List.reverse_reverse, leBytes_ofLe_of_length (by simp [writeHead])]
    rw [runWqe, h.head1, if_neg (by simp), if_pos rfl, runCas, h.head1, h.target, hswap]
    show scatter (if ofLe (load m l.sr2 8) = ofBe (load m (l.sr1 + 40) 8) then _ else _)
      (dataSegs m (l.sr1 + 48) 1) _ = _
    rw [h.segs1, scatter_single (length_load _ _ _), if_congr hmatch rfl rfl]
  rw [hrun, load_store_of_disjoint (by rw [length_load]; omega),
    load_store_of_disjoint (by rw [length_load]; omega)]
  split
  · exact ⟨load_store_self (by simp [writeHead]), by
      rw [load_store_of_disjoint (by simp [writeHead]), h.addr2]⟩
  · exact ⟨h.head2, h.addr2⟩

/-! ### The answer -/

/-- A bucket outside the WQEs is read as it was before the iteration. -/
theorem bucketAt_recv (m : Mem) (l : Layout) (it : Iteration) {key : List UInt8}
    (hkey : key.length = 3) (addr : UInt64) {a : ℕ} (h0 : a + 11 ≤ l.sr0 ∨ l.sr0 + 64 ≤ a)
    (h1 : a + 11 ≤ l.sr1 ∨ l.sr1 + 64 ≤ a) (h2 : a + 11 ≤ l.sr2 ∨ l.sr2 + 64 ≤ a) :
    bucketAt (recv m l it (key ++ beBytes 8 addr.toNat)) a = bucketAt m a := by
  have hframe {b n : ℕ} (hb : a ≤ b) (hn : b + n ≤ a + 11) :
      load (recv m l it (key ++ beBytes 8 addr.toNat)) b n = load m b n := by
    have hlen0 : (postHashRead it).sgList.length = 2 := rfl
    have hlen1 : (casRequest l.buffer l.buffer 0 1 it.casLkey it.casRkey 1).sgList.length = 1 := rfl
    have hlen2 : (dummyWriteRequest it).sgList.length = 1 := rfl
    rw [recv, recvSges, ATOMIC_COMPARE, scatter_pair hkey (length_beBytes _ _),
      load_store_beBytes_of_disjoint (by omega), load_store_of_disjoint (by omega), offloadHash,
      load_patchCompare (by omega) (by omega),
      load_patchSwap (by omega) (by omega) (by omega), post,
      load_fillRdma_of_disjoint (by omega), load_fillAtomic_of_disjoint (by omega),
      load_fillRdma_of_disjoint (by omega)]
  rw [bucketAt, bucketAt, hframe (by omega) (by omega), hframe (by omega) (by omega)]

theorem ctrlOf_writeHead {m : Mem} {a : ℕ} {it : Iteration} (h : load m a 8 = writeHead it) :
    ctrlOf m a = ⟨0, it.head2.idx.toNat, MLX5_OPCODE_RDMA_WRITE_IMM, it.head2.qpNum, 3⟩ :=
  it.head2.ctrlOf_eq (by decide) (by decide) h

theorem opcode_nopWord {m : Mem} {a : ℕ} {it : Iteration} {rest : List UInt8}
    (h : load m a 8 = nopWord it ++ rest) : (ctrlOf m a).opcode = MLX5_OPCODE_NOP := by
  obtain ⟨hword, -⟩ := List.append_inj ((load_add m a 4 4).symm.trans h) (by simp [nopWord])
  exact opcode_ctrlOf (by decide) it.head2.idx.toNat_lt (by decide) hword

theorem answer_eq (m : Mem) (l : Layout) (it : Iteration) {key : List UInt8}
    (hkey : key.length = 3) (addr : UInt64) :
    let request := key ++ beBytes 8 addr.toNat
    let bucket := bucketAt (recv m l it request) addr.toNat
    load (answer m l it request) l.sr2 8 =
        (if bucket.key = key.reverse then writeHead it else nopWord it ++ (bucket.key ++ [3])) ∧
      load (answer m l it request) (l.sr2 + 40) 8 = bucket.addr :=
  ((armed_offloadHash m l it).received hkey addr).fetched.answered hkey (length_load _ _ _)

/-- The WRITE answers exactly when the keys agree. -/
theorem opcode_answer (m : Mem) (l : Layout) (it : Iteration) {key : List UInt8}
    (hkey : key.length = 3) (addr : UInt64) :
    let request := key ++ beBytes 8 addr.toNat
    let bucket := bucketAt (recv m l it request) addr.toNat
    (ctrlOf (answer m l it request) l.sr2).opcode =
      if bucket.key = key.reverse then MLX5_OPCODE_RDMA_WRITE_IMM else MLX5_OPCODE_NOP := by
  obtain ⟨hhead, -⟩ := answer_eq m l it hkey addr
  intro request bucket
  by_cases hb : bucket.key = key.reverse
  · rw [if_pos hb] at hhead ⊢
    rw [ctrlOf_writeHead hhead]
  · rw [if_neg hb] at hhead ⊢
    exact opcode_nopWord hhead

/-- What `post_get_req_async` sends. -/
theorem gather_postGetReqAsync (m : Mem) (baseAddr : ℕ) (key : UInt32) (addr : UInt64) :
    gather (postGetReqAsync m baseAddr key addr).1 (postGetReqAsync m baseAddr key addr).2 =
      [0, 0, key.toUInt8] ++ beBytes 8 addr.toNat := by
  show load _ baseAddr (1 + (1 + 1)) ++ (load _ (baseAddr + 4) 8 ++ []) = _
  rw [load_add, load_add, List.append_nil]
  simp (disch := omega) only [postGetReqAsync, load_store_byte, load_store_beBytes,
    load_store_beBytes_of_disjoint, load_store_byte_of_disjoint]
  rfl

/-- **The conditional offload is exact.**  Whatever the indices, the QP numbers, the
request and the bucket it names: the head of `sr2` is what the driver wrote exactly
for the bucket whose key is the one of the request reversed; `sr2` then sends from the
address of the bucket, and is a NOP otherwise.  Hence a key sent by
`post_get_req_async` is answered exactly from the bucket with that key and two zeros. -/
theorem offload_exact (m : Mem) (l : Layout) (it : Iteration) :
    (∀ (p0 p1 p2 : UInt8) (addr : UInt64),
      let request := [p0, p1, p2] ++ beBytes 8 addr.toNat
      let bucket := bucketAt (recv m l it request) addr.toNat
      let done := answer m l it request
      (load done l.sr2 8 = writeHead it ↔ bucket.key = [p2, p1, p0]) ∧
        (bucket.key = [p2, p1, p0] →
          ctrlOf done l.sr2 =
              ⟨0, it.head2.idx.toNat, MLX5_OPCODE_RDMA_WRITE_IMM, it.head2.qpNum, 3⟩ ∧
            load done (l.sr2 + 40) 8 = bucket.addr) ∧
        (bucket.key ≠ [p2, p1, p0] → (ctrlOf done l.sr2).opcode = MLX5_OPCODE_NOP)) ∧
      ∀ (client : Mem) (baseAddr : ℕ) (key : UInt8) (addr : UInt64),
        let sent := postGetReqAsync client baseAddr key.toUInt32 addr
        let request := gather sent.1 sent.2
        (ctrlOf (answer m l it request) l.sr2).opcode = MLX5_OPCODE_RDMA_WRITE_IMM ↔
          (bucketAt (recv m l it request) addr.toNat).key = [key, 0, 0] := by
  constructor
  · intro p0 p1 p2 addr request bucket done
    have hlen : [p0, p1, p2].length = 3 := rfl
    obtain ⟨hhead, haddr⟩ := answer_eq m l it hlen addr
    have hop := opcode_answer m l it hlen addr
    refine ⟨⟨?_, ?_⟩, ?_, ?_⟩
    · -- a NOP is not what the driver wrote
      intro hdone
      by_contra hb
      have hnop := hop.trans (if_neg hb)
      rw [ctrlOf_writeHead hdone] at hnop
      exact absurd hnop (by simp)
    · intro hb
      exact hhead.trans (if_pos hb)
    · intro hb
      exact ⟨ctrlOf_writeHead (hhead.trans (if_pos hb)), haddr⟩
    · intro hb
      exact hop.trans (if_neg hb)
  · intro client baseAddr key addr sent request
    have hrequest : request = [0, 0, key] ++ beBytes 8 addr.toNat := by
      have hgather := gather_postGetReqAsync client baseAddr key.toUInt32 addr
      rwa [UInt8.toUInt8_toUInt32] at hgather
    have hlen : [0, 0, key].length = 3 := rfl
    rw [hrequest, opcode_answer m l it hlen addr]
    split
    · simpa
    · simpa

end OffloadPatch

end Rdma
