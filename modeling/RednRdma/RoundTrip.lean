/-
WQEs read back (`mlx5_intf.c`, `connection.c`).

What `__mlx5_post_send` leaves in the queue, decoded as the NIC does, against the work request
it was called with.  Three fields of it do not come from the request: the index is a local
variable that is always 0, the table of control bits is never built, and a wait is for the
completion queue of the connection that posts.

* `setDataSeg_before` — the data segments leave what lies before them;
* `mlx5PostSendOne_decodes` — what a WQE decodes to;
* `round_trip_iff` — this is the work request exactly where the three fields agree.
-/
import RednRdma.InlineData
import RednRdma.Metadata
import RednRdma.Lookup

namespace Rdma

open Bytes

namespace Builder

/-- The units of a WQE. -/
def wqeUnits (wr : WorkRequest) : ℕ :=
  shadowHeader wr.opcode + if wr.flags.inl then inlineUnits wr.byteLen else wr.dataSges.length

/-- The opcodes whose WQE has a remote address segment. -/
def hasRaddr : WrOpcode → Bool
  | .rdmaRead | .rdmaWrite | .rdmaWriteWithImm | .atomicCmpAndSwp | .atomicFetchAndAdd => true
  | _ => false

/-- The operation segments of the WQE at `a` are those of `wr`, which waits for this completion
queue. -/
structure OpDecodes (m : Mem) (a : ℕ) (wr : WorkRequest) (cqn : UInt32) : Prop where
  remote : hasRaddr wr.opcode → ofBe (load m (a + 16) 8) = wr.remoteAddr.toNat ∧
    ofBe (load m (a + 24) 4) = wr.rkey.toNat
  swap : wr.opcode = .atomicCmpAndSwp → ofBe (load m (a + 32) 8) = wr.swap.toNat ∧
    ofBe (load m (a + 40) 8) = wr.compareAdd.toNat
  add : wr.opcode = .atomicFetchAndAdd → ofBe (load m (a + 32) 8) = wr.compareAdd.toNat
  wait : wr.opcode = .cqeWait → ofBe (load m (a + 28) 4) = cqn.toNat ∧
    ofBe (load m (a + 24) 4) = (taskCount wr.task).toNat
  enable : wr.opcode = .sendEnable → ∀ target, taskQpNum wr.task = .ok target →
    ofBe (load m (a + 28) 4) = target.toNat ∧
      ofBe (load m (a + 24) 4) = (taskCount wr.task).toNat

/-- The WQE at `a`, decoded, is that of `wr`, posted on a queue pair of this number, with this
index, these control bits and this completion queue to wait for. -/
structure Decodes (m : Mem) (a : ℕ) (wr : WorkRequest) (qpNum idx : ℕ) (bits : UInt8)
    (cqn : UInt32) : Prop where
  ctrl : ctrlOf m a =
    { opmod := 0, idx, opcode := mlx5IbOpcode wr.opcode, qpNum, size := wqeUnits wr }
  bits : m (a + FM_CE_SE) = bits
  imm : wr.opcode = .sendWithImm ∨ wr.opcode = .rdmaWriteWithImm →
    ofLe (load m (a + IMM) 4) = wr.immData.toNat
  op : OpDecodes m a wr cqn

/-- The completion queue that `wr->task.cqe_wait.cq` is. -/
def waitCqn (v : Verbs) : Task → UInt32
  | .cqeWait (some cq) _ => (v.mlx5dvInitCq cq).cqn
  | _ => 0

/-- The WQE at `a` is the work request. -/
def RoundTrip (v : Verbs) (ctx : ConnContext) (wr : WorkRequest) (m : Mem) (a : ℕ) : Prop :=
  Decodes m a wr ctx.qpNum.toNat (ctx.scurPost.toNat % 2 ^ 16) (ctrlBits wr.flags)
    (waitCqn v wr.task)

/-- The opcodes the library issues, with the task that goes with them. -/
def Issued (wr : WorkRequest) : Prop :=
  match wr.opcode with
  | .send | .sendWithImm | .rdmaWrite | .rdmaWriteWithImm | .rdmaRead => True
  | .atomicCmpAndSwp | .atomicFetchAndAdd | .nop => True
  | .cqeWait => ∃ cq count, wr.task = .cqeWait (some cq) count
  | .sendEnable => ∃ target count, wr.task = .wqeEnable target count
  | _ => False

/-- The context of a connection with its ring view set. -/
def withView (c : Conn) (buf : ℕ) (scurPost : UInt32) : ConnContext :=
  { c.ctx with sqStart := buf, sqEnd := buf + 64 * c.qp.wqeCnt.toNat, scurPost }

/-! ### The data segments -/

theorem noOverflow_of_lt {sum : ℕ} {sgList : List Sge} (h : sum + byteSum sgList < 2 ^ 31) :
    NoOverflow sum sgList := by
  induction sgList generalizing sum with
  | nil => trivial
  | cons sge sges ih =>
    rw [byteSum_cons] at h
    exact ⟨by omega, fun _ => ih (by omega)⟩

/-- In a queue that holds what may be inline no copy ends outside. -/
theorem staysInside_of_le {N sum c : ℕ} {sgList : List Sge} (hN : 128 ≤ N) (hc : c ≤ N) :
    StaysInside N sum c sgList := by
  induction sgList generalizing sum c with
  | nil => trivial
  | cons sge sges ih =>
    intro hle
    refine ⟨hc, ih ?_⟩
    rw [nextCursor]
    split <;> omega

variable {ctx : ConnContext} {n : ℕ} {data m : Mem}

/-- Inline data that comes through is not too long. -/
theorem byteSum_le_of_ok (hn : 2 ≤ n) (hend : ctx.sqEnd = ctx.sqStart + 64 * n) {p : ℕ}
    {sz size atomArg : ℤ} {sgList : List Sge} {m' : Mem} (hp : p + 4 ≤ 64 * n)
    (hlt : byteSum sgList < 2 ^ 31)
    (h : setDataSeg ctx data m (ctx.sqStart + p) sz true sgList atomArg 0 0 =
      .ok (m', .ok size)) :
    byteSum sgList ≤ 128 := by
  by_contra hover
  obtain ⟨r, hr, hok⟩ := setDataInlSeg_enomem data m sz hend hp
    (noOverflow_of_lt (by omega)) (staysInside_of_le (by omega) hp) (Nat.lt_of_not_le hover)
  obtain ⟨r', hr', hret⟩ := Except.bind_eq_ok.mp h
  obtain rfl := Except.ok.inj (hr.symm.trans hr')
  have henomem := hok.enomem.mpr (Nat.lt_of_not_le hover)
  have hsize := congrArg Prod.snd (Except.pure_eq_ok.mp hret)
  rw [show r.ret = _ from hsize] at henomem
  exact absurd henomem (by simp)

theorem dataSges_eq (wr : WorkRequest) : wr.dataSges = nonEmpty wr.sgList := by
  refine List.filter_congr ?_
  intro sge _
  simp [UInt32.pos_iff_ne_zero]

/-- The data segments leave what lies before them, and the size counts them. -/
theorem setDataSeg_before (data m : Mem) (hn : 5 ≤ n)
    (hend : ctx.sqEnd = ctx.sqStart + 64 * n) {idx header : ℕ} {atomArg : ℤ} {wr : WorkRequest}
    (hidx : idx < n) (hheader : 1 ≤ header ∧ header ≤ 3) (hatom : atomArg = 0 ∨ atomArg = 8)
    (hsges : wr.sgList.length ≤ 16) (hinl : wr.flags.inl = true → wr.byteLen ≤ 128) :
    ∃ m', setDataSeg ctx data m (getSendWqe ctx idx + 16 * header) header wr.flags.inl wr.sgList
        atomArg 0 0 = .ok (m', .ok (header + if wr.flags.inl then inlineUnits wr.byteLen
          else wr.dataSges.length : ℕ)) ∧
      ∀ b k, b + k ≤ 16 * header →
        load m' (getSendWqe ctx idx + b) k = load m (getSendWqe ctx idx + b) k := by
  have hpos : 0 < n := by omega
  have hcount : (nonEmpty wr.sgList).length ≤ 16 := (List.length_filter_le _ _).trans hsges
  have hwqe : getSendWqe ctx idx + 16 * header = ctx.sqStart + (64 * idx + 16 * header) := by
    rw [getSendWqe_eq, Nat.add_assoc]
  have hat (b : ℕ) : getSendWqe ctx idx + b = (sendRing ctx n hpos).base + (64 * idx + b) := by
    rw [getSendWqe_eq, Nat.add_assoc]
    rfl
  rw [hwqe, dataSges_eq]
  -- inline or not, the bytes go from the header on around the ring and do not come back to it
  cases hin : wr.flags.inl with
  | false =>
    obtain ⟨arg, hret, -⟩ := setDataSeg_eq data m hpos hend
      (p := 64 * idx + 16 * header) (by omega) (by omega) hsges hatom (Int.natCast_nonneg header)
      (by omega)
    refine ⟨_, hret, ?_⟩
    intro b k hb
    rw [hat]
    refine Circular.load_store_before (by omega) (show _ ≤ 64 * n by omega) ?_
    rw [length_flatMap_sgeBytes]
    exact show _ ≤ _ + 64 * n by omega
  | true =>
    have hle : byteSum wr.sgList ≤ 128 := hinl hin
    have hret := setDataInlSeg_eq data m hpos hend
      (show 64 * idx + 16 * header + 4 ≤ 64 * n by omega) hle (by omega)
      (Int.natCast_nonneg header) (by omega)
    refine ⟨_, congrArg (· >>= _) hret, ?_⟩
    intro b k hb
    rw [hat]
    exact load_inlineMem_before hpos (by omega) (by omega) (by omega)

/-! ### The operation segments -/

/-- Where the memory is the same before the data segments, so are the operation segments. -/
theorem OpDecodes.congr {m' : Mem} {a : ℕ} {wr : WorkRequest} {cqn : UInt32}
    (hd : OpDecodes m a wr cqn) (h : ∀ b k, 16 ≤ b → b + k ≤ 16 * shadowHeader wr.opcode →
      load m' (a + b) k = load m (a + b) k) : OpDecodes m' a wr cqn := by
  constructor
  case remote =>
    intro hop
    have hheader : 2 ≤ shadowHeader wr.opcode := by
      revert hop
      cases wr.opcode <;> decide
    rw [h 16 8 (by omega) (by omega), h 24 4 (by omega) (by omega)]
    exact hd.remote hop
  case swap =>
    intro hop
    rw [hop] at h
    rw [h 32 8 (by decide) (by decide), h 40 8 (by decide) (by decide)]
    exact hd.swap hop
  case add =>
    intro hop
    rw [hop] at h
    rw [h 32 8 (by decide) (by decide)]
    exact hd.add hop
  case wait =>
    intro hop
    rw [hop] at h
    rw [h 28 4 (by decide) (by decide), h 24 4 (by decide) (by decide)]
    exact hd.wait hop
  case enable =>
    intro hop
    rw [hop] at h
    rw [h 28 4 (by decide) (by decide), h 24 4 (by decide) (by decide)]
    exact hd.enable hop

theorem load_setRaddrSeg (m : Mem) (a : ℕ) (remoteAddr : UInt64) (rkey : UInt32) :
    ofBe (load (setRaddrSeg m (a + 16) remoteAddr.toNat rkey.toNat) (a + 16) 8) =
        remoteAddr.toNat ∧
      ofBe (load (setRaddrSeg m (a + 16) remoteAddr.toNat rkey.toNat) (a + 24) 4) =
        rkey.toNat := by
  have haddr := remoteAddr.toNat_lt
  have hrkey := rkey.toNat_lt
  simp (disch := omega) only [setRaddrSeg, RADDR_RKEY, Nat.add_assoc, Nat.reduceAdd,
    load_store_beBytes, load_store_beBytes_of_disjoint, load_store_leBytes_of_disjoint,
    ofBe_beBytes, and_self]

theorem load_setAtomicSeg_cas (m : Mem) (a : ℕ) (swap compareAdd : UInt64) :
    ofBe (load (setAtomicSeg m a .atomicCmpAndSwp swap.toNat compareAdd.toNat) a 8) =
        swap.toNat ∧
      ofBe (load (setAtomicSeg m a .atomicCmpAndSwp swap.toNat compareAdd.toNat) (a + 8) 8) =
        compareAdd.toNat := by
  have hswap := swap.toNat_lt
  have hcompare := compareAdd.toNat_lt
  rw [setAtomicSeg, if_pos rfl]
  simp (disch := omega) only [ATOMIC_COMPARE, load_store_beBytes,
    load_store_beBytes_of_disjoint, ofBe_beBytes, and_self]

theorem load_setAtomicSeg_add (m : Mem) (a : ℕ) (swap : ℕ) (compareAdd : UInt64) :
    ofBe (load (setAtomicSeg m a .atomicFetchAndAdd swap compareAdd.toNat) a 8) =
      compareAdd.toNat := by
  have hcompare := compareAdd.toNat_lt
  rw [setAtomicSeg, if_neg (by decide)]
  simp (disch := omega) only [ATOMIC_COMPARE, load_store_beBytes,
    load_store_leBytes_of_disjoint, ofBe_beBytes]

theorem load_setWaitEnSeg (m : Mem) (a : ℕ) (objNum count : UInt32) :
    ofBe (load (setWaitEnSeg m (a + 16) objNum.toNat count.toNat) (a + 28) 4) = objNum.toNat ∧
      ofBe (load (setWaitEnSeg m (a + 16) objNum.toNat count.toNat) (a + 24) 4) =
        count.toNat := by
  have hobj := objNum.toNat_lt
  have hcount := count.toNat_lt
  simp (disch := omega) only [setWaitEnSeg, Nat.add_assoc, Nat.reduceAdd, load_store_beBytes,
    load_store_beBytes_of_disjoint, ofBe_beBytes, and_self]

/-- The header of a WQE that is built. -/
structure HeaderOk (ctx : ConnContext) (wr : WorkRequest) (a : ℕ) (h : Header) : Prop where
  seg : h.seg = a + 16 * shadowHeader wr.opcode
  size : h.size = shadowHeader wr.opcode
  atomArg : h.atomArg = 0 ∨ h.atomArg = 8
  op : ∀ icq, ctx.icq = some icq → OpDecodes h.m a wr icq.cqn

theorem headerSegs_ok {wr : WorkRequest} {a : ℕ} {h : Header} (hissued : Issued wr)
    (hh : headerSegs ctx m wr (a + 16) = .ok (.ok h)) : HeaderOk ctx wr a h := by
  rw [headerSegs] at hh
  rw [Issued] at hissued
  cases hop : wr.opcode
  all_goals simp only [hop] at hh hissued
  -- nothing before the data segments
  case send | sendWithImm | nop =>
    obtain rfl := Except.ok.inj (Except.ok.inj hh)
    refine ⟨by rw [hop]; rfl, by rw [hop]; rfl, Or.inl rfl, ?_⟩
    intro icq _
    constructor <;> simp [hop, hasRaddr]
  -- the address alone
  case rdmaRead | rdmaWrite | rdmaWriteWithImm =>
    obtain rfl := Except.ok.inj (Except.ok.inj hh)
    refine ⟨by rw [hop]; rfl, by rw [hop]; rfl, Or.inl rfl, ?_⟩
    intro icq _
    constructor <;> simp [hop, load_setRaddrSeg]
  -- the address, and behind it the operands
  case atomicCmpAndSwp | atomicFetchAndAdd =>
    obtain rfl := Except.ok.inj (Except.ok.inj hh)
    refine ⟨by rw [hop]; rfl, by rw [hop]; rfl, Or.inr rfl, ?_⟩
    intro icq _
    constructor <;>
      simp (disch := omega) [hop, load_setAtomicSeg_of_disjoint, load_setRaddrSeg,
        load_setAtomicSeg_cas, load_setAtomicSeg_add, Nat.add_assoc]
  case cqeWait =>
    obtain ⟨icq, hicq, hh⟩ := Except.bind_eq_ok.mp hh
    obtain rfl := Except.ok.inj (Except.ok.inj hh)
    refine ⟨by rw [hop]; rfl, by rw [hop]; rfl, Or.inl rfl, ?_⟩
    intro icq' hicq'
    -- the number stored is the one of the poster's own queue
    obtain rfl := Option.some_inj.mp (hicq'.symm.trans (deref_eq_ok.mp hicq))
    constructor <;> simp [hop, hasRaddr, load_setWaitEnSeg]
  case sendEnable =>
    obtain ⟨target, count, htask⟩ := hissued
    split at hh
    · exact absurd hh (by simp [pure, Except.pure])
    · rw [htask] at hh
      obtain rfl := Except.ok.inj (Except.ok.inj hh)
      refine ⟨by rw [hop]; rfl, by rw [hop]; rfl, Or.inl rfl, ?_⟩
      intro icq _
      constructor <;> simp [hop, htask, hasRaddr, taskQpNum, load_setWaitEnSeg]

/-! ### The whole WQE -/

theorem mlx5PostSendOne_eq_ok {m' : Mem} {wr : WorkRequest} {a : ℕ} {size : ℤ}
    (h : mlx5PostSendOne ctx data m wr a = .ok (m', .ok size)) :
    ∃ hd m₁, headerSegs ctx m wr (a + 16) = .ok (.ok hd) ∧
      setDataSeg ctx data hd.m hd.seg hd.size wr.flags.inl wr.sgList hd.atomArg 0 0 =
        .ok (m₁, .ok size) ∧
      m' = setCtrlSeg m₁ a ctx.qpNum.toNat (mlx5IbOpcode wr.opcode) 0 0
        (UInt8.ofInt size).toNat (ctx.fmCeSeTbl (sendFlagBits wr.flags)).toNat
        (sendIeth wr).toNat := by
  obtain ⟨hret, hheader, h⟩ := Except.bind_eq_ok.mp h
  cases hret with
  | error e => simp at h
  | ok hd =>
    obtain ⟨⟨m₁, ret⟩, hdata, h⟩ := Except.bind_eq_ok.mp h
    cases ret with
    | error e => simp at h
    | ok size' =>
      obtain ⟨rfl, hsize⟩ := Prod.mk.inj (Except.pure_eq_ok.mp h)
      obtain rfl := Except.ok.inj hsize
      exact ⟨hd, m₁, hheader, hdata, rfl⟩

theorem mlx5IbOpcode_lt (opcode : WrOpcode) : mlx5IbOpcode opcode < 2 ^ 8 := by
  cases opcode <;> decide

theorem shadowHeader_le (opcode : WrOpcode) :
    1 ≤ shadowHeader opcode ∧ shadowHeader opcode ≤ 3 := by
  cases opcode <;> decide

/-- The control bits and the immediate of a control segment. -/
theorem setCtrlSeg_bits (m : Mem) (a qpNum opcode idx opmod size imm : ℕ) (bits : UInt8) :
    setCtrlSeg m a qpNum opcode idx opmod size bits.toNat imm (a + FM_CE_SE) = bits ∧
      load (setCtrlSeg m a qpNum opcode idx opmod size bits.toNat imm) (a + IMM) 4 =
        leBytes 4 imm := by
  constructor
  · have hword : load (setCtrlSeg m a qpNum opcode idx opmod size bits.toNat imm) (a + 8) 4 =
        beBytes 4 bits.toNat := by
      simp (disch := omega) only [setCtrlSeg, IMM, load_store_beBytes,
        load_store_leBytes_of_disjoint]
    -- the last of the four bytes of the word
    have hbyte := getElem?_load (m := setCtrlSeg m a qpNum opcode idx opmod size bits.toNat imm)
      (a := a + 8) (n := 4) (i := 3) (by decide)
    rw [hword] at hbyte
    have hlast : (beBytes 4 bits.toNat)[3]? = some bits := by
      simp [beBytes, leBytes]
    exact (Option.some_inj.mp (hlast.symm.trans hbyte)).symm
  · simp only [setCtrlSeg, load_store_leBytes]

/-- A WQE whose data is short has a size that its 6 bits hold. -/
theorem wqeUnits_lt {wr : WorkRequest} (hsges : wr.sgList.length ≤ 16)
    (hinl : wr.flags.inl = true → wr.byteLen ≤ 128) : wqeUnits wr < 2 ^ 6 := by
  have hheader := shadowHeader_le wr.opcode
  rw [wqeUnits]
  cases hin : wr.flags.inl with
  | false =>
    have hcount : wr.dataSges.length ≤ wr.sgList.length := List.length_filter_le _ _
    rw [if_neg Bool.false_ne_true]
    omega
  | true =>
    have hle := hinl hin
    have hunits : inlineUnits wr.byteLen ≤ 9 := by
      rw [inlineUnits]
      split
      · decide
      · exact divRoundUp_le (by decide) (by omega)
    rw [if_pos rfl]
    omega

/-- What `__mlx5_post_send` leaves decodes to the work request, but for the index, the control
bits and the completion queue. -/
theorem mlx5PostSendOne_decodes (hn : 5 ≤ n) (hend : ctx.sqEnd = ctx.sqStart + 64 * n) {idx : ℕ}
    (hidx : idx < n) {icq : Mlx5dvCq} (hicq : ctx.icq = some icq)
    (hqpn : ctx.qpNum.toNat < 2 ^ 24) {wr : WorkRequest} (hissued : Issued wr)
    (hsges : wr.sgList.length ≤ 16) (hinl : wr.flags.inl = true → wr.byteLen ≤ 128) {m' : Mem}
    {size : ℤ} (h : mlx5PostSendOne ctx data m wr (getSendWqe ctx idx) = .ok (m', .ok size)) :
    Decodes m' (getSendWqe ctx idx) wr ctx.qpNum.toNat 0 (ctx.fmCeSeTbl (sendFlagBits wr.flags))
      icq.cqn := by
  obtain ⟨hd, m₁, hheader, hdata, rfl⟩ := mlx5PostSendOne_eq_ok h
  have hok := headerSegs_ok hissued hheader
  have hunits := shadowHeader_le wr.opcode
  obtain ⟨m₂, hdata', hbefore⟩ := setDataSeg_before data hd.m hn hend hidx hunits
    hok.atomArg hsges hinl
  -- the data segments have not touched the header, nor has the control segment
  rw [hok.seg, hok.size, hdata'] at hdata
  obtain ⟨rfl, hsize⟩ := Prod.mk.inj (Except.ok.inj hdata)
  obtain rfl := Except.ok.inj hsize
  have hlt := wqeUnits_lt hsges hinl
  have hsize : (UInt8.ofInt (wqeUnits wr : ℕ)).toNat = wqeUnits wr := by
    rw [UInt8.ofInt, UInt8.toNat_ofNat']
    omega
  have hbits := setCtrlSeg_bits m₂ (getSendWqe ctx idx) ctx.qpNum.toNat (mlx5IbOpcode wr.opcode) 0 0
    (UInt8.ofInt (wqeUnits wr : ℕ)).toNat (sendIeth wr).toNat
    (ctx.fmCeSeTbl (sendFlagBits wr.flags))
  refine ⟨?_, hbits.1, ?_, ?_⟩
  · refine ctrlOf_eq (by decide) (by decide) (mlx5IbOpcode_lt _) hqpn ?_ ?_
    · exact hlt
    · rw [← hsize]
      exact load_setCtrlSeg
  · intro hop
    have himm := (sendIeth wr).toNat_lt
    have hieth : sendIeth wr = wr.immData := by
      rw [sendIeth]
      rcases hop with hop | hop <;> rw [hop]
    rw [← hieth]
    refine (congrArg ofLe hbits.2).trans ?_
    rw [ofLe_leBytes]
    exact Nat.mod_eq_of_lt himm
  · refine (hok.op icq hicq).congr ?_
    intro b k hb hk
    rw [load_setCtrlSeg_of_disjoint (by omega), hbefore b k hk]

/-! ### The connection -/

/-- Setup leaves the table of control bits as it was. -/
theorem setupConnection_fmCeSeTbl {v : Verbs} {s : Option Context} {id : RdmaCmId}
    {params : Option RdmaConnParam} {s' : Context} {c : Conn} {ctx₀ : ConnContext}
    (hctx : id.context = some ctx₀) (h : setupConnection v s id params = .ok (s', c)) :
    c.ctx.fmCeSeTbl = ctx₀.fmCeSeTbl := by
  obtain ⟨s₁, ctx₁, ctx₂, h₁, h₂, hqueueing, -⟩ := setupConnection_eq_ok hctx h
  have hdev : ctx₁.fmCeSeTbl = ctx₀.fmCeSeTbl := by
    rcases tryBuildDevice_cases h₁ with ⟨i, -, -, -, rfl⟩ | ⟨-, -, -, rfl⟩
    · rfl
    · rfl
  have hmeta : ctx₂.fmCeSeTbl = ctx₁.fmCeSeTbl := by
    rcases takeMetadata_eq_ok h₂ with ⟨-, rfl⟩ | ⟨rcMeta, -, -, rfl⟩
    · rfl
    · rfl
  rw [hqueueing]
  exact hmeta.trans hdev

/-- The number of the completion queue is that of the queue just created. -/
theorem buildCqChannel_cq {v : Verbs} {s : Context} {ctx ctx' : ConnContext}
    (h : buildCqChannel v s ctx = .ok ctx') :
    ∃ cq, ctx'.cq = some cq ∧ ctx'.icq = some (v.mlx5dvInitCq cq) := by
  obtain ⟨device, -, h⟩ := Except.bind_eq_ok.mp h
  split at h
  · exact absurd h (by simp)
  · split at h
    · exact absurd h (by simp)
    · rename_i cq _
      obtain rfl := Except.ok.inj h
      exact ⟨cq, rfl, rfl⟩

/-- The queues that setup creates. -/
theorem setupConnection_queues {v : Verbs} {s : Option Context} {id : RdmaCmId}
    {params : Option RdmaConnParam} {s' : Context} {c : Conn}
    (h : setupConnection v s id params = .ok (s', c)) :
    (∃ cq, c.ctx.cq = some cq ∧ c.ctx.icq = some (v.mlx5dvInitCq cq)) ∧
      ∃ pd attr qp, v.rdmaCreateQp pd attr = some qp ∧ attr.maxSendSge = 16 ∧
        c.qp = qp.queue := by
  rw [setupConnection] at h
  obtain ⟨ctx, -, h⟩ := Except.bind_eq_ok.mp h
  obtain ⟨⟨s₁, ctx₁⟩, -, h⟩ := Except.bind_eq_ok.mp h
  obtain ⟨ctx₂, -, h⟩ := Except.bind_eq_ok.mp h
  obtain ⟨ctx₃, hchannel, h⟩ := Except.bind_eq_ok.mp h
  obtain ⟨pd, -, h⟩ := Except.bind_eq_ok.mp h
  have hcq := buildCqChannel_cq hchannel
  split at h
  · exact absurd h (by simp)
  · rename_i qp hqp
    split at h
    · exact absurd h (by simp)
    · obtain ⟨-, rfl⟩ := Prod.mk.inj (Except.ok.inj h)
      exact ⟨hcq, pd, _, qp, hqp, rfl, rfl⟩

/-- A queue for 16 SGEs has room for the largest WQE. -/
theorem five_le_wqeCnt {q : DriverQp} (h : 16 ≤ q.maxGs) : 5 ≤ q.wqeCnt.toNat := by
  have hfits := q.maxGs_fits
  simp only [SEND_WQE_BB] at hfits
  omega

theorem ctrlBits_eq_zero_iff (flags : SendFlags) :
    ctrlBits flags = 0 ↔
      flags.fence = false ∧ flags.signaled = false ∧ flags.solicited = false := by
  rw [ctrlBits]
  cases flags.fence <;> cases flags.signaled <;> cases flags.solicited <;> decide

/-- The table, had `mlx5_build_ctrl_metadata` been called: what the flags ask for, and the signal
bits. -/
theorem fmCeSeTbl_mlx5BuildCtrlMetadata (ctx : ConnContext) (flags : SendFlags) :
    (mlx5BuildCtrlMetadata ctx).fmCeSeTbl (sendFlagBits flags) =
      ctx.sqSignalBits ||| ctrlBits flags := by
  rw [mlx5BuildCtrlMetadata, sendFlagBits, ctrlBits]
  cases flags.fence <;> cases flags.signaled <;> cases flags.solicited <;> rfl

/-- Inline data whose units fit the size is far from what an `int` does not hold. -/
theorem byteLen_lt_of_wqeUnits {wr : WorkRequest} (hinl : wr.flags.inl = true)
    (h : wqeUnits wr < 2 ^ 6) : wr.byteLen < 2 ^ 31 := by
  rw [wqeUnits, inlineUnits, divRoundUp] at h
  rw [if_pos hinl] at h
  split at h <;> omega

/-- Inline data that comes through is not too long, if its units fit the size. -/
theorem byteLen_le_of_ok (hn : 5 ≤ n) (hend : ctx.sqEnd = ctx.sqStart + 64 * n) {idx : ℕ}
    (hidx : idx < n) {wr : WorkRequest} (hissued : Issued wr) {m' : Mem} {size : ℤ}
    (hpost : mlx5PostSendOne ctx data m wr (getSendWqe ctx idx) = .ok (m', .ok size))
    (hlt : wqeUnits wr < 2 ^ 6) (hinl : wr.flags.inl = true) : wr.byteLen ≤ 128 := by
  obtain ⟨hd, m₁, hheader, hdata, -⟩ := mlx5PostSendOne_eq_ok hpost
  have hok := headerSegs_ok hissued hheader
  have hunits := shadowHeader_le wr.opcode
  rw [hinl, hok.seg, getSendWqe_eq, Nat.add_assoc] at hdata
  exact byteSum_le_of_ok (by omega) hend (by omega) (byteLen_lt_of_wqeUnits hinl hlt) hdata

/-- **The round trip** holds exactly for the first WQE of a lap of 2^16 blocks that asks for no
completion, fence or solicited event, for waits on the connection's own completion queue, and
for inline data within the limit. -/
theorem round_trip_iff {v : Verbs} {s : Option Context} {id : RdmaCmId}
    {params : Option RdmaConnParam} {s' : Context} {c : Conn}
    {sockfd type alwaysPoll flags : ℤ}
    (hid : id.context = some (initContext sockfd type alwaysPoll flags))
    (hsetup : setupConnection v s id params = .ok (s', c))
    (hgs : ∀ pd attr qp, v.rdmaCreateQp pd attr = some qp → attr.maxSendSge ≤ qp.queue.maxGs)
    (hqpn : c.ctx.qpNum.toNat < 2 ^ 24) (buf : ℕ) (scurPost : UInt32) {idx : ℕ}
    (hidx : idx < c.qp.wqeCnt.toNat) {wr : WorkRequest} (hissued : Issued wr)
    (hsges : wr.sgList.length ≤ 16) {data m m' : Mem} {size : ℤ}
    (hpost : mlx5PostSendOne (withView c buf scurPost) data m wr
      (getSendWqe (withView c buf scurPost) idx) = .ok (m', .ok size)) :
    RoundTrip v (withView c buf scurPost) wr m' (getSendWqe (withView c buf scurPost) idx) ↔
      scurPost.toNat % 2 ^ 16 = 0 ∧
      (wr.flags.fence = false ∧ wr.flags.signaled = false ∧ wr.flags.solicited = false) ∧
      (wr.opcode = .cqeWait →
        c.ctx.cq.map (fun cq => (v.mlx5dvInitCq cq).cqn) = some (waitCqn v wr.task)) ∧
      (wr.flags.inl = true → wr.byteLen ≤ 128) := by
  obtain ⟨⟨cq, hcq, hicq⟩, pd, attr, qp, hqp, hmax, hqueue⟩ := setupConnection_queues hsetup
  have hn : 5 ≤ c.qp.wqeCnt.toNat := by
    rw [hqueue]
    exact five_le_wqeCnt (hmax ▸ hgs pd attr qp hqp)
  have hend : (withView c buf scurPost).sqEnd =
      (withView c buf scurPost).sqStart + 64 * c.qp.wqeCnt.toNat := rfl
  have hdecodes (hinl : wr.flags.inl = true → wr.byteLen ≤ 128) :=
    mlx5PostSendOne_decodes hn hend hidx hicq hqpn hissued hsges hinl hpost
  -- the table that `calloc` left
  have hzero : (withView c buf scurPost).fmCeSeTbl (sendFlagBits wr.flags) = 0 :=
    congrFun (setupConnection_fmCeSeTbl hid hsetup) _
  constructor
  · intro hrt
    -- the NIC reads 6 bits of size
    have hlt : (ctrlOf m' (getSendWqe (withView c buf scurPost) idx)).size < 2 ^ 6 :=
      Nat.mod_lt _ (by decide)
    rw [hrt.ctrl] at hlt
    have hinl := byteLen_le_of_ok hn hend hidx hissued hpost hlt
    have hd := hdecodes hinl
    refine ⟨?_, ?_, ?_, hinl⟩
    · exact congrArg Ctrl.idx (hrt.ctrl.symm.trans hd.ctrl)
    · rw [← ctrlBits_eq_zero_iff, ← hzero]
      exact hrt.bits.symm.trans hd.bits
    · intro hop
      have hcqn := (hrt.op.wait hop).1.symm.trans (hd.op.wait hop).1
      rw [hcq, Option.map_some, ← UInt32.toNat_inj.mp hcqn]
  · rintro ⟨hlow, hflags, hwait, hinl⟩
    have hd := hdecodes hinl
    refine ⟨?_, ?_, hd.imm, ⟨hd.op.remote, hd.op.swap, hd.op.add, ?_, hd.op.enable⟩⟩
    · rw [hd.ctrl, show (withView c buf scurPost).scurPost = scurPost from rfl, hlow]
    · rw [hd.bits, hzero, (ctrlBits_eq_zero_iff wr.flags).mpr hflags]
    · intro hop
      have hown := hwait hop
      rw [hcq, Option.map_some] at hown
      rw [← Option.some_inj.mp hown]
      exact hd.op.wait hop

/-- A provider whose queue pairs take 16 SGEs, and that refuses to create one for more. -/
def verbs16 : Verbs :=
  { verbs64 with
    rdmaCreateQp := fun pd attr =>
      if attr.maxSendSge ≤ 16 then verbs64.rdmaCreateQp pd attr else none }

/-- A write of three SGEs with an immediate, whose third data segment is at the beginning of
the queue. -/
def writeImm : WorkRequest where
  opcode := .rdmaWriteWithImm
  sgList := [⟨0x100, 8, 1⟩, ⟨0x200, 8, 1⟩, ⟨0x300, 8, 1⟩]
  immData := 0x11223344
  remoteAddr := 0x5000
  rkey := 7

/-- The last block of the queue, after 2^16 of them. -/
theorem round_trip_write_imm : ∃ s' c m' size,
    setupConnection verbs16 none clientId none = .ok (s', c) ∧
      mlx5PostSendOne (withView c 0x10000 0x10000) (fun _ => 0) (fun _ => 0) writeImm
        (getSendWqe (withView c 0x10000 0x10000) 63) = .ok (m', .ok size) ∧
      RoundTrip verbs16 (withView c 0x10000 0x10000) writeImm m'
        (getSendWqe (withView c 0x10000 0x10000) 63) := by
  obtain ⟨s', c, hset⟩ : ∃ s' c, setupConnection verbs16 none clientId none = .ok (s', c) :=
    ⟨_, _, rfl⟩
  obtain ⟨hqpn, hqueue⟩ : c.ctx.qpNum = 9 ∧ c.qp = ring64 := by
    obtain ⟨-, rfl⟩ := Prod.mk.inj (Except.ok.inj hset)
    exact ⟨rfl, rfl⟩
  obtain ⟨m', size, hpost⟩ : ∃ m' size,
      mlx5PostSendOne (withView c 0x10000 0x10000) (fun _ => 0) (fun _ => 0) writeImm
        (getSendWqe (withView c 0x10000 0x10000) 63) = .ok (m', .ok size) := by
    obtain ⟨-, rfl⟩ := Prod.mk.inj (Except.ok.inj hset)
    exact ⟨_, _, rfl⟩
  have hgs : ∀ pd attr qp, verbs16.rdmaCreateQp pd attr = some qp →
      attr.maxSendSge ≤ qp.queue.maxGs := by
    intro pd attr qp hqp
    obtain ⟨hle, hqp⟩ := Option.ite_none_right_eq_some.mp hqp
    obtain rfl := Option.some_inj.mp hqp
    exact hle
  refine ⟨s', c, m', size, hset, hpost, (round_trip_iff rfl hset hgs (by rw [hqpn]; decide) _ _
    (by rw [hqueue]; decide) (show Issued writeImm from trivial) (by decide) hpost).mpr ?_⟩
  exact ⟨by decide, ⟨rfl, rfl, rfl⟩, fun h => absurd h (by decide), fun h => absurd h (by decide)⟩

/-- An empty request that asks for a completion. -/
def signaledNop : WorkRequest := { opcode := .nop, flags := { signaled := true } }

/-- In the second block its WQE has index 0, and asks for nothing. -/
theorem round_trip_lost : ∃ s' c m' size,
    setupConnection verbs16 none clientId none = .ok (s', c) ∧
      mlx5PostSendOne (withView c 0x10000 1) (fun _ => 0) (fun _ => 0) signaledNop
        (getSendWqe (withView c 0x10000 1) 1) = .ok (m', .ok size) ∧
      (ctrlOf m' (getSendWqe (withView c 0x10000 1) 1)).idx = 0 ∧
      m' (getSendWqe (withView c 0x10000 1) 1 + FM_CE_SE) = 0 ∧
      ¬ RoundTrip verbs16 (withView c 0x10000 1) signaledNop m'
        (getSendWqe (withView c 0x10000 1) 1) := by
  refine ⟨_, _, _, _, rfl, rfl, by decide, by decide, ?_⟩
  intro hrt
  exact absurd hrt.bits (by decide)

end Builder

end Rdma
