/-
Data segments around the queue (`mlx5_intf.h`).

`set_data_non_inl_seg` and `set_data_atom_seg` write one segment for each SGE that is not
empty, and go on at the beginning of the queue where they reach its end.  Segments and
queue are a multiple of 16 bytes, so that no segment is cut in two.

* `dataSegLoop_eq` — what the loop stores, as one run around the queue;
* `data_segs_in_ring` — every segment is where it belongs, and no other byte is touched.
-/
import RednRdma.WqeBuilder
import RednRdma.Lib.Circular

namespace Rdma

open Bytes

namespace Builder

theorem toInt_of_lt {x : ℤ} (hneg : -2 ^ 31 ≤ x) (hlt : x < 2 ^ 31) : toInt x = x :=
  Int.bmod_eq_of_le (by omega) (by omega)

theorem length_offset_zero (length : UInt32) : length - UInt32.ofInt 0 = length := by
  rw [show UInt32.ofInt 0 = 0 from rfl, sub_zero]

theorem addr_offset_zero (addr : UInt64) : addr + UInt64.ofInt 0 = addr := by
  rw [show UInt64.ofInt 0 = 0 from rfl, add_zero]

/-- The send queue of `n` blocks. -/
def sendRing (ctx : ConnContext) (n : ℕ) (hn : 0 < n) : Circular where
  base := ctx.sqStart
  size := 64 * n
  size_pos := Nat.mul_pos (by decide) hn

/-- The SGEs that are not empty. -/
def nonEmpty (sgList : List Sge) : List Sge := sgList.filter fun sge => sge.length ≠ 0

/-- A data segment, byte by byte. -/
def segBytes (length lkey addr : ℕ) : List UInt8 :=
  beBytes 4 length ++ beBytes 4 lkey ++ beBytes 8 addr

theorem length_segBytes (length lkey addr : ℕ) : (segBytes length lkey addr).length = 16 := by
  simp [segBytes]

theorem setDataPtrSeg_eq (m : Mem) (dseg length lkey addr : ℕ) :
    setDataPtrSeg m dseg length lkey addr = store m dseg (segBytes length lkey addr) := by
  simp only [setDataPtrSeg, segBytes, store_append, List.length_append, length_beBytes,
    DATA_LKEY, DATA_ADDR]

/-- The segment of an SGE. -/
def sgeBytes (arg : Option ℤ) (sge : Sge) : List UInt8 :=
  segBytes (segLength arg sge 0).toNat sge.lkey.toNat sge.addr.toNat

theorem length_flatMap_sgeBytes (arg : Option ℤ) (sges : List Sge) :
    (sges.flatMap (sgeBytes arg)).length = 16 * sges.length := by
  induction sges with
  | nil => rfl
  | cons sge sges ih =>
    rw [List.flatMap_cons, List.length_append, ih, sgeBytes, length_segBytes, List.length_cons]
    omega

/-- The loop stores the segments one after the other around the queue. -/
theorem dataSegLoop_eq {ctx : ConnContext} {n : ℕ} (hn : 0 < n)
    (hend : ctx.sqEnd = ctx.sqStart + 64 * n) {arg : Option ℤ} {sgList : List Sge}
    {p o : ℕ} (hat : (sendRing ctx n hn).At p o) (hp : p % 16 = 0) {m : Mem} {sz : ℤ}
    (hsz : 0 ≤ sz) (hroom : sz + (nonEmpty sgList).length < 2 ^ 31) :
    dataSegLoop ctx arg sgList (ctx.sqStart + p) 0 m sz =
      ((sendRing ctx n hn).store m o ((nonEmpty sgList).flatMap (sgeBytes arg)),
        sz + (nonEmpty sgList).length) := by
  induction sgList generalizing p o m sz with
  | nil => simp [dataSegLoop, nonEmpty, Circular.store]
  | cons sge sges ih =>
    have hle : p ≤ 64 * n := hat.le
    -- where the segment goes, if there is one
    obtain ⟨q, hq, hqat, hq16, hqroom⟩ : ∃ q,
        (if ctx.sqStart + p = ctx.sqEnd then getSendWqe ctx 0 else ctx.sqStart + p) =
          ctx.sqStart + q ∧ (sendRing ctx n hn).At q o ∧ q % 16 = 0 ∧
          q + 16 ≤ 64 * n := by
      by_cases hpend : p = 64 * n
      · subst hpend
        refine ⟨0, by rw [hend, if_pos rfl, getSendWqe, Nat.zero_mul],
          ⟨Nat.zero_le _, ?_⟩, rfl, by omega⟩
        rw [← hat.mod]
        exact (Nat.mod_self _).symm
      · exact ⟨p, by rw [hend, if_neg (by omega)], hat, hp, by omega⟩
    simp only [dataSegLoop, hq]
    by_cases hlen : sge.length ≠ 0
    · have hcons : nonEmpty (sge :: sges) = sge :: nonEmpty sges :=
        List.filter_cons_of_pos (by simpa using hlen)
      rw [hcons, List.length_cons] at hroom
      have hseg : setDataPtrSeg m (ctx.sqStart + q) (segLength arg sge 0).toNat sge.lkey.toNat
            (sge.addr + UInt64.ofInt 0).toNat =
          (sendRing ctx n hn).store m o (sgeBytes arg sge) := by
        rw [hqat.store_eq (by rw [sgeBytes, length_segBytes]; exact hqroom), setDataPtrSeg_eq,
          addr_offset_zero]
        rfl
      have hnext := hqat.add (k := 16) hqroom
      simp only [if_pos hlen]
      rw [hseg, Nat.add_assoc, toInt_of_lt (by omega) (by push_cast at hroom; omega),
        ih hnext (by omega) (by omega) (by push_cast at hroom; omega), hcons, List.flatMap_cons,
        Circular.store_append, sgeBytes, length_segBytes, List.length_cons]
      simp only [Prod.mk.injEq, true_and]
      push_cast
      omega
    · have hcons : nonEmpty (sge :: sges) = nonEmpty sges :=
        List.filter_cons_of_neg (by simpa using hlen)
      rw [hcons] at hroom ⊢
      simp only [if_neg hlen]
      exact ih hqat hq16 hsz hroom

/-- The segment of SGE `j`, in the run of all. -/
theorem take_drop_flatMap {arg : Option ℤ} {sges : List Sge} {j : ℕ} {sge : Sge}
    (h : sges[j]? = some sge) :
    ((sges.flatMap (sgeBytes arg)).drop (16 * j)).take 16 = sgeBytes arg sge := by
  induction sges generalizing j with
  | nil => exact absurd h (by simp)
  | cons s sges ih =>
    have hlen : (sgeBytes arg s).length = 16 := length_segBytes _ _ _
    rw [List.flatMap_cons]
    cases j with
    | zero =>
      obtain rfl : s = sge := by simpa using h
      rw [Nat.mul_zero, List.drop_zero, ← hlen, List.take_left]
    | succ j =>
      rw [show 16 * (j + 1) = (sgeBytes arg s).length + 16 * j by rw [hlen]; omega,
        List.drop_length_add_append]
      exact ih (by simpa using h)

/-- Where the data segments of a WQE at block `start` are, after `header` segments. -/
def segAt (ctx : ConnContext) (n start header j : ℕ) : ℕ :=
  ctx.sqStart + (64 * start + 16 * header + 16 * j) % (64 * n)

theorem getSendWqe_eq (ctx : ConnContext) (n : ℕ) :
    getSendWqe ctx n = ctx.sqStart + 64 * n := by
  rw [getSendWqe, Nat.mul_comm]

/-- A segment is not cut in two. -/
theorem mod_add_le {n o : ℕ} (hn : 0 < n) (ho : o % 16 = 0) : o % (64 * n) + 16 ≤ 64 * n := by
  have hlt : o % (64 * n) < 64 * n := Nat.mod_lt o (by omega)
  have hmod : o % (64 * n) % 16 = o % 16 := Nat.mod_mod_of_dvd o ⟨4 * n, by omega⟩
  omega

/-- What a call without inline data stores: the segments, each with the length its opcode
gives it. -/
theorem setDataSeg_eq {ctx : ConnContext} (data m : Mem) {n : ℕ} (hn : 0 < n)
    (hend : ctx.sqEnd = ctx.sqStart + 64 * n) {p : ℕ} {sgList : List Sge}
    {atomArg sz : ℤ} (hp : p ≤ 64 * n) (hp16 : p % 16 = 0) (hsges : sgList.length ≤ 16)
    (hatom : atomArg = 0 ∨ atomArg = 8) (hsz : 0 ≤ sz) (hroom : sz + 16 < 2 ^ 31) :
    ∃ arg, setDataSeg ctx data m (ctx.sqStart + p) sz false sgList atomArg 0 0 =
        .ok ((sendRing ctx n hn).store m p ((nonEmpty sgList).flatMap (sgeBytes arg)),
          .ok (sz + (nonEmpty sgList).length)) ∧
      ∀ sge, sgeBytes arg sge = beBytes 4 (if atomArg = 8 then 8 else sge.length.toNat) ++
        beBytes 4 sge.lkey.toNat ++ beBytes 8 sge.addr.toNat := by
  have hcount : (nonEmpty sgList).length ≤ 16 := (List.length_filter_le _ _).trans hsges
  have hat : (sendRing ctx n hn).At p p := ⟨hp, rfl⟩
  have hloop (arg : Option ℤ) : dataSegLoop ctx arg sgList (ctx.sqStart + p) 0 m sz =
      ((sendRing ctx n hn).store m p ((nonEmpty sgList).flatMap (sgeBytes arg)),
        sz + (nonEmpty sgList).length) :=
    dataSegLoop_eq hn hend hat hp16 hsz (by omega)
  rcases hatom with rfl | rfl
  · refine ⟨none, ?_, fun sge => ?_⟩
    · exact congrArg (fun r : Mem × ℤ => Except.ok (r.1, Except.ok r.2)) (hloop none)
    · rw [sgeBytes, segLength, length_offset_zero]
      rfl
  · refine ⟨some 8, ?_, fun _ => rfl⟩
    exact congrArg (fun r : Mem × ℤ => Except.ok (r.1, Except.ok r.2)) (hloop (some 8))

/-- **Data segments around the queue**: of a WQE that fits, every SGE that is not empty has its
segment where it belongs, the size counts them, and no other byte is touched. -/
theorem data_segs_in_ring (ctx : ConnContext) (data m : Mem) (n start header : ℕ)
    (sgList : List Sge) (atomArg sz : ℤ) (hend : ctx.sqEnd = ctx.sqStart + 64 * n)
    (hstart : start < n) (hheader : 1 ≤ header ∧ header ≤ 3) (hsges : sgList.length ≤ 16)
    (hfits : header + (nonEmpty sgList).length ≤ 4 * n) (hatom : atomArg = 0 ∨ atomArg = 8)
    (hsz : 0 ≤ sz) (hroom : sz + 16 < 2 ^ 31) :
    ∃ m', setDataSeg ctx data m (getSendWqe ctx start + 16 * header) sz false sgList atomArg 0 0 =
        .ok (m', .ok (sz + (nonEmpty sgList).length)) ∧
      (∀ j sge, (nonEmpty sgList)[j]? = some sge → load m' (segAt ctx n start header j) 16 =
        beBytes 4 (if atomArg = 8 then 8 else sge.length.toNat) ++ beBytes 4 sge.lkey.toNat ++
          beBytes 8 sge.addr.toNat) ∧
      ∀ x, (∀ j < (nonEmpty sgList).length,
        x < segAt ctx n start header j ∨ segAt ctx n start header j + 16 ≤ x) → m' x = m x := by
  have hn : 0 < n := by omega
  have hcount : (nonEmpty sgList).length ≤ 16 := (List.length_filter_le _ _).trans hsges
  obtain ⟨o, ho⟩ : ∃ o, o = 64 * start + 16 * header := ⟨_, rfl⟩
  have hwqe : getSendWqe ctx start + 16 * header = ctx.sqStart + o := by
    rw [getSendWqe_eq, Nat.add_assoc, ho]
  have haddr (j : ℕ) : segAt ctx n start header j = (sendRing ctx n hn).addr (o + 16 * j) := by
    rw [segAt, ← ho]
    rfl
  have hwhole (j : ℕ) : (o + 16 * j) % (sendRing ctx n hn).size + 16 ≤ (sendRing ctx n hn).size :=
    mod_add_le hn (by omega)
  obtain ⟨arg, harg, hbytes⟩ := setDataSeg_eq data m hn hend (show o ≤ 64 * n by omega)
    (show o % 16 = 0 by omega) hsges hatom hsz hroom
  rw [← hwqe] at harg
  have hlen := length_flatMap_sgeBytes arg (nonEmpty sgList)
  have hlap : ((nonEmpty sgList).flatMap (sgeBytes arg)).length ≤ (sendRing ctx n hn).size := by
    rw [hlen]
    change 16 * _ ≤ 64 * n
    omega
  refine ⟨_, harg, ?_, ?_⟩
  · intro j sge hj
    have hjlt := (List.getElem?_eq_some_iff.mp hj).1
    have hread := Circular.load_store_within (m := m) (o := o) hlap
      (show 16 * j + 16 ≤ _ by rw [hlen]; omega)
    rw [haddr, ← Circular.load_eq_load (hwhole j), hread, take_drop_flatMap hj, hbytes]
  · intro x hx
    refine Circular.store_of_apart ?_
    intro i hi
    rw [hlen] at hi
    -- byte `i` is in segment `i / 16`
    have hseg := hx (i / 16) (by omega)
    have hwhole := hwhole (i / 16)
    have hbyte := Circular.addr_add (c := sendRing ctx n hn) (o := o + 16 * (i / 16)) (i := i % 16)
      (by omega)
    rw [show o + 16 * (i / 16) + i % 16 = o + i by omega] at hbyte
    rw [hbyte]
    rw [haddr] at hseg
    omega

/-- A queue of two blocks. -/
def ring2 : ConnContext := { sqStart := 0x1000, sqEnd := 0x1080 }

/-- Three segments after two of header in its last block: the third is at the beginning. -/
theorem data_segs_past_end :
    ∃ m', setDataSeg ring2 (fun _ => 0) (fun _ => 0) 0x1060 2 false
        [⟨0x100, 8, 1⟩, ⟨0x200, 0, 2⟩, ⟨0x300, 8, 3⟩, ⟨0x400, 16, 4⟩] 0 0 0 = .ok (m', .ok 5) ∧
      load m' 0x1000 16 = beBytes 4 16 ++ beBytes 4 4 ++ beBytes 8 0x400 := by
  obtain ⟨m', hret, hseg, -⟩ := data_segs_in_ring ring2 (fun _ => 0) (fun _ => 0) 2 1 2
    [⟨0x100, 8, 1⟩, ⟨0x200, 0, 2⟩, ⟨0x300, 8, 3⟩, ⟨0x400, 16, 4⟩] 0 2 rfl (by decide) (by decide)
    (by decide) (by decide) (Or.inl rfl) (by decide) (by decide)
  exact ⟨m', hret, hseg 2 _ rfl⟩

end Builder

end Rdma
