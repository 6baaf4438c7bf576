/-
Inline data around the queue (`mlx5_intf.h`).

`set_data_inl_seg` copies what the SGEs point to into the queue and counts the bytes in an
`int`, which it compares with the limit before each copy.  Lengths are unsigned: one that
takes the count past what an `int` holds makes it negative, and the check lets it through.

* `copyIn_eq` — one copy, split where the queue ends;
* `inlLoop_enomem`, `inlLoop_stored` — the loop on lists that are too long, and that are not;
* `inline_law_iff` — the limit and the round trip hold exactly where no length takes the count
  past an `int` and the data stays inside the queue;
* `length_overflows` — a length of 2^31 bytes.
-/
import RednRdma.DataSegs

namespace Rdma

open Bytes

namespace Builder

/-- The bytes the SGEs gather, counted. -/
def byteSum (sgList : List Sge) : ℕ := (sgList.map fun sge => sge.length.toNat).sum

/-- The bytes the SGEs gather. -/
def contents (data : Mem) (sgList : List Sge) : List UInt8 :=
  sgList.flatMap fun sge => load data sge.addr.toNat sge.length.toNat

/-- The `k` bytes after `o` bytes of a queue of `n` blocks, read around it. -/
def ringLoad (ctx : ConnContext) (n : ℕ) (m : Mem) (o k : ℕ) : List UInt8 :=
  (List.range k).map fun i => m (ctx.sqStart + (o + i) % (64 * n))

/-- What is claimed of a call at byte `p` of a queue of `n` blocks. -/
structure InlineOk (ctx : ConnContext) (n p : ℕ) (sz : ℤ) (sgList : List Sge) (data : Mem)
    (r : InlDone) : Prop where
  enomem : r.ret = .error .enomem ↔ IBV_INLINE_THRESHOLD < byteSum sgList
  copied : r.copied ≤ IBV_INLINE_THRESHOLD
  done : byteSum sgList ≤ IBV_INLINE_THRESHOLD → ∃ sz', r.ret = .ok sz' ∧
    (byteSum sgList ≠ 0 →
      ringLoad ctx n r.m (p + 4) (byteSum sgList) = contents data sgList ∧
      ofBe (load r.m (ctx.sqStart + p) 4) = byteSum sgList + MLX5_WRAPPER_INLINE_SEG.toNat ∧
      sz' = sz + divRoundUp (byteSum sgList + 4) 16)

/-- The length that takes the count past the limit, if there is one, does not take it past
what an `int` holds. -/
def NoOverflow : ℕ → List Sge → Prop
  | _, [] => True
  | sum, sge :: sges =>
    sum + sge.length.toNat < 2 ^ 31 ∧
      (sum + sge.length.toNat ≤ 128 → NoOverflow (sum + sge.length.toNat) sges)

/-- Where `len` bytes copied from byte `c` of a queue of `N` bytes end, when what does not fit
before its end goes to its beginning. -/
def nextCursor (N c len : ℕ) : ℕ := if N < c + len then len - (N - c) else c + len

/-- No copy starts outside the queue.  One that is longer than the queue ends there. -/
def StaysInside (N : ℕ) : ℕ → ℕ → List Sge → Prop
  | _, _, [] => True
  | sum, c, sge :: sges =>
    sum + sge.length.toNat ≤ 128 →
      c ≤ N ∧ StaysInside N (sum + sge.length.toNat) (nextCursor N c sge.length.toNat) sges

instance decNoOverflow : ∀ sum sgList, Decidable (NoOverflow sum sgList)
  | _, [] => isTrue trivial
  | sum, sge :: sges =>
    haveI := decNoOverflow (sum + sge.length.toNat) sges
    inferInstanceAs (Decidable (_ ∧ (_ → _)))

instance decStaysInside (N : ℕ) : ∀ sum c sgList, Decidable (StaysInside N sum c sgList)
  | _, _, [] => isTrue trivial
  | sum, c, sge :: sges =>
    haveI := decStaysInside N (sum + sge.length.toNat) (nextCursor N c sge.length.toNat) sges
    inferInstanceAs (Decidable (_ → _ ∧ _))

/-! ### One copy -/

variable {ctx : ConnContext} {n : ℕ} {data : Mem}

theorem toInt_wrap {x : ℤ} (hge : 2 ^ 31 ≤ x) (hlt : x < 2 ^ 32 + 2 ^ 31) :
    toInt x = x - 2 ^ 32 := by
  rw [toInt, Int.bmod_def]
  split <;> omega

/-- What a copy to byte `c` leaves: what does not fit before the end of the queue is at its
beginning. -/
def splitStore (ctx : ConnContext) (n : ℕ) (m : Mem) (c : ℕ) (bs : List UInt8) : Mem :=
  if 64 * n < c + bs.length then
    store (store m (ctx.sqStart + c) (bs.take (64 * n - c))) ctx.sqStart (bs.drop (64 * n - c))
  else store m (ctx.sqStart + c) bs

/-- A copy that starts inside the queue. -/
theorem copyIn_eq (hend : ctx.sqEnd = ctx.sqStart + 64 * n) {s : InlVars} {c addr len : ℕ}
    (hwqe : s.wqe = ctx.sqStart + c) (hc : c ≤ 64 * n) (hlen : len < 2 ^ 31) :
    copyIn ctx data s addr len = .ok { s with
      m := splitStore ctx n s.m c (load data addr len)
      wqe := ctx.sqStart + nextCursor (64 * n) c len
      copied := s.copied + len } := by
  rw [copyIn, copyToEnd, splitStore, nextCursor]
  rw [hwqe, hend, length_load]
  by_cases hsplit : 64 * n < c + len
  · have hcopy : toInt ((ctx.sqStart + 64 * n : ℕ) - (ctx.sqStart + c : ℕ)) = (64 * n - c : ℕ) := by
      rw [toInt_of_lt (by omega) (by omega)]
      omega
    have hrest : toInt (len - (64 * n - c : ℕ)) = (len - (64 * n - c) : ℕ) := by
      rw [toInt_of_lt (by omega) (by omega)]
      omega
    rw [if_pos (by omega), if_pos hsplit, if_pos hsplit, hcopy, take_load (by omega),
      drop_load (by omega)]
    simp [memcpy, hrest, getSendWqe, bind, Except.bind, pure, Except.pure]
    omega
  · rw [if_neg (by omega), if_neg hsplit, if_neg hsplit]
    simp [memcpy, hwqe, Nat.add_assoc, bind, Except.bind, pure, Except.pure]

/-- A copy of a negative length, or one that starts outside. -/
theorem copyIn_fault (hend : ctx.sqEnd = ctx.sqStart + 64 * n) {s : InlVars} {c addr : ℕ}
    {len : ℤ} (hwqe : s.wqe = ctx.sqStart + c) (hc : c ≤ 64 * n + 128)
    (h : len < 0 ∨ 64 * n < c) : copyIn ctx data s addr len = .error .fault := by
  rw [copyIn, copyToEnd]
  rw [hwqe, hend]
  by_cases hsplit : ((ctx.sqStart + c : ℕ) : ℤ) + len > (ctx.sqStart + 64 * n : ℕ)
  · -- the end lies before where the copy starts
    have hcopy : toInt ((ctx.sqStart + 64 * n : ℕ) - (ctx.sqStart + c : ℕ)) < 0 := by
      rw [toInt_of_lt (by omega) (by omega)]
      omega
    rw [if_pos hsplit]
    simp only [memcpy, if_neg (not_le.mpr hcopy), bind, Except.bind]
  · rw [if_neg hsplit]
    simp only [memcpy, if_neg (show ¬ 0 ≤ len by omega), bind, Except.bind]

theorem copyIn_mono {s s' : InlVars} {addr : ℕ} {len : ℤ}
    (h : copyIn ctx data s addr len = .ok s') : s.copied ≤ s'.copied := by
  obtain ⟨⟨s₁, addr₁, len₁⟩, h₁, h⟩ := Except.bind_eq_ok.mp h
  obtain ⟨m, -, h⟩ := Except.bind_eq_ok.mp h
  obtain rfl := Except.pure_eq_ok.mp h
  have hle : s.copied ≤ s₁.copied := by
    rw [copyToEnd] at h₁
    split at h₁
    · obtain ⟨m₁, -, h₁⟩ := Except.bind_eq_ok.mp h₁
      obtain ⟨rfl, -⟩ := Prod.mk.inj (Except.pure_eq_ok.mp h₁)
      exact Nat.le_add_right _ _
    · obtain ⟨rfl, -⟩ := Prod.mk.inj (Except.ok.inj h₁)
      exact le_rfl
  exact hle.trans (Nat.le_add_right _ _)

/-! ### The loop -/

theorem byteSum_cons (sge : Sge) (sges : List Sge) :
    byteSum (sge :: sges) = sge.length.toNat + byteSum sges := rfl

theorem contents_cons (data : Mem) (sge : Sge) (sges : List Sge) :
    contents data (sge :: sges) =
      load data sge.addr.toNat sge.length.toNat ++ contents data sges := List.flatMap_cons

theorem length_contents (data : Mem) (sgList : List Sge) :
    (contents data sgList).length = byteSum sgList := by
  induction sgList with
  | nil => rfl
  | cons sge sges ih =>
    rw [contents_cons, List.length_append, length_load, byteSum_cons, ih]

theorem inlLoop_cons (s : InlVars) (sge : Sge) (sges : List Sge) :
    inlLoop ctx data (sge :: sges) 0 s =
      if IBV_INLINE_THRESHOLD < toInt (s.inl + toInt sge.length.toNat) then
        .ok (some .enomem, { s with inl := toInt (s.inl + toInt sge.length.toNat) })
      else copyIn ctx data s sge.addr.toNat (toInt sge.length.toNat) >>= fun s' =>
        inlLoop ctx data sges 0 { s' with inl := toInt (s.inl + toInt sge.length.toNat) } := by
  rw [inlLoop, addr_offset_zero, length_offset_zero]
  rfl

theorem inlLoop_mono {sges : List Sge} {s s' : InlVars} {err : Option Errno}
    (h : inlLoop ctx data sges 0 s = .ok (err, s')) : s.copied ≤ s'.copied := by
  induction sges generalizing s with
  | nil =>
    obtain ⟨-, rfl⟩ := Prod.mk.inj (Except.ok.inj h)
    exact le_rfl
  | cons sge sges ih =>
    rw [inlLoop_cons] at h
    split at h
    · obtain ⟨-, rfl⟩ := Prod.mk.inj (Except.ok.inj h)
      exact le_rfl
    · obtain ⟨s₁, h₁, h⟩ := Except.bind_eq_ok.mp h
      have hrest := ih h
      exact (copyIn_mono h₁).trans hrest

/-- The loop has counted and copied `sum` bytes, and goes on at byte `c`. -/
structure Stands (ctx : ConnContext) (n : ℕ) (s : InlVars) (sum c : ℕ) : Prop where
  inl : s.inl = sum
  copied : s.copied = sum
  wqe : s.wqe = ctx.sqStart + c
  near : c ≤ 64 * n + 128
  sum_le : sum ≤ 128

/-- The variables after a copy that is made. -/
def copyOne (ctx : ConnContext) (n : ℕ) (data : Mem) (s : InlVars) (c : ℕ) (sge : Sge) : InlVars :=
  { m := splitStore ctx n s.m c (load data sge.addr.toNat sge.length.toNat)
    wqe := ctx.sqStart + nextCursor (64 * n) c sge.length.toNat
    inl := s.inl + sge.length.toNat
    copied := s.copied + sge.length.toNat }

section

variable {s : InlVars} {sum c : ℕ} {sge : Sge} {sges : List Sge}

theorem Stands.count (h : Stands ctx n s sum c) (hlt : sum + sge.length.toNat < 2 ^ 31) :
    toInt (s.inl + toInt sge.length.toNat) = (sum + sge.length.toNat : ℕ) := by
  rw [h.inl, toInt_of_lt (x := sge.length.toNat) (by omega) (by omega),
    toInt_of_lt (by omega) (by omega)]
  push_cast
  rfl

/-- Too long, and counted right. -/
theorem Stands.over (h : Stands ctx n s sum c) (hover : 128 < sum + sge.length.toNat)
    (hlt : sum + sge.length.toNat < 2 ^ 31) :
    ∃ s', inlLoop ctx data (sge :: sges) 0 s = .ok (some .enomem, s') ∧ s'.copied = sum := by
  rw [inlLoop_cons, h.count hlt, if_pos (by simp only [IBV_INLINE_THRESHOLD]; omega)]
  exact ⟨_, rfl, h.copied⟩

theorem Stands.turn (data : Mem) (sges : List Sge) (hend : ctx.sqEnd = ctx.sqStart + 64 * n)
    (h : Stands ctx n s sum c) (hc : c ≤ 64 * n) (hle : sum + sge.length.toNat ≤ 128) :
    inlLoop ctx data (sge :: sges) 0 s = inlLoop ctx data sges 0 (copyOne ctx n data s c sge) ∧
      Stands ctx n (copyOne ctx n data s c sge) (sum + sge.length.toNat)
        (nextCursor (64 * n) c sge.length.toNat) := by
  have hinl : s.inl + sge.length.toNat = (sum + sge.length.toNat : ℕ) := by
    rw [h.inl]
    push_cast
    rfl
  refine ⟨?_, ⟨hinl, congrArg (· + _) h.copied, rfl, ?_, hle⟩⟩
  · rw [inlLoop_cons, h.count (by omega), if_neg (by simp only [IBV_INLINE_THRESHOLD]; omega),
      toInt_of_lt (x := sge.length.toNat) (by omega) (by omega),
      copyIn_eq hend h.wqe hc (by omega), ← hinl]
    rfl
  · rw [nextCursor]
    split <;> omega

theorem Stands.fault (hend : ctx.sqEnd = ctx.sqStart + 64 * n) (h : Stands ctx n s sum c)
    (hc : 64 * n < c) (hle : sum + sge.length.toNat ≤ 128) :
    inlLoop ctx data (sge :: sges) 0 s = .error .fault := by
  rw [inlLoop_cons, h.count (by omega), if_neg (by simp only [IBV_INLINE_THRESHOLD]; omega),
    copyIn_fault hend h.wqe h.near (Or.inr hc)]
  rfl

/-- A length that takes the count past an `int` is let through, and copied. -/
theorem Stands.overflow (hend : ctx.sqEnd = ctx.sqStart + 64 * n) (h : Stands ctx n s sum c)
    (hge : 2 ^ 31 ≤ sum + sge.length.toNat) {err : Option Errno} {s' : InlVars}
    (hs : inlLoop ctx data (sge :: sges) 0 s = .ok (err, s')) : 128 < s'.copied := by
  have hlen := sge.length.toNat_lt
  have hsum := h.sum_le
  rw [inlLoop_cons] at hs
  by_cases hneg : sge.length.toNat < 2 ^ 31
  · have hint : toInt sge.length.toNat = sge.length.toNat := toInt_of_lt (by omega) (by omega)
    rw [hint, h.inl, toInt_wrap (by omega) (by omega),
      if_neg (by simp only [IBV_INLINE_THRESHOLD]; omega)] at hs
    obtain ⟨s₁, h₁, hs⟩ := Except.bind_eq_ok.mp hs
    by_cases hc : c ≤ 64 * n
    · rw [copyIn_eq hend h.wqe hc hneg] at h₁
      obtain rfl := Except.ok.inj h₁
      have hmono := inlLoop_mono hs
      have hcopied := h.copied
      dsimp only at hmono
      omega
    · rw [copyIn_fault hend h.wqe h.near (Or.inr (by omega))] at h₁
      exact absurd h₁ (by simp)
  · -- as an `int` the length is negative
    have hint : toInt sge.length.toNat = sge.length.toNat - 2 ^ 32 :=
      toInt_wrap (by omega) (by omega)
    rw [hint, h.inl, toInt_of_lt (by omega) (by omega),
      if_neg (by simp only [IBV_INLINE_THRESHOLD]; omega)] at hs
    obtain ⟨s₁, h₁, -⟩ := Except.bind_eq_ok.mp hs
    rw [copyIn_fault hend h.wqe h.near (Or.inl (by omega))] at h₁
    exact absurd h₁ (by simp)

end

/-- A list that is too long is refused, with what was copied before. -/
theorem inlLoop_enomem (data : Mem) (sges : List Sge) (hend : ctx.sqEnd = ctx.sqStart + 64 * n)
    {s : InlVars} {sum c : ℕ} (h : Stands ctx n s sum c) (hov : NoOverflow sum sges)
    (hin : StaysInside (64 * n) sum c sges) (hover : 128 < sum + byteSum sges) :
    ∃ s', inlLoop ctx data sges 0 s = .ok (some .enomem, s') ∧ s'.copied ≤ 128 := by
  induction sges generalizing s sum c with
  | nil =>
    have := h.sum_le
    exact absurd hover (by simp [byteSum]; omega)
  | cons sge sges ih =>
    rw [byteSum_cons] at hover
    by_cases hle : sum + sge.length.toNat ≤ 128
    · obtain ⟨hc, hin⟩ := hin hle
      obtain ⟨hturn, hstands⟩ := h.turn data sges hend hc hle
      rw [hturn]
      exact ih hstands (hov.2 hle) hin (by omega)
    · obtain ⟨s', hs', hcopied⟩ := h.over (by omega) hov.1
      exact ⟨s', hs', hcopied.trans_le h.sum_le⟩

/-- A list that is not too long is stored around the queue. -/
theorem inlLoop_stored (data : Mem) (sges : List Sge) (hn : 0 < n)
    (hend : ctx.sqEnd = ctx.sqStart + 64 * n) {s : InlVars} {sum c o : ℕ}
    (h : Stands ctx n s sum c) (hat : (sendRing ctx n hn).At c o)
    (hfits : byteSum sges ≤ 64 * n) (hle : sum + byteSum sges ≤ 128) :
    ∃ s', inlLoop ctx data sges 0 s = .ok (none, s') ∧
      s'.m = (sendRing ctx n hn).store s.m o (contents data sges) ∧
      s'.inl = (sum + byteSum sges : ℕ) ∧ s'.copied = sum + byteSum sges := by
  induction sges generalizing s sum c o with
  | nil => exact ⟨s, rfl, rfl, h.inl, h.copied⟩
  | cons sge sges ih =>
    rw [byteSum_cons] at hfits hle ⊢
    have hc : c ≤ 64 * n := hat.le
    have hlen : sum + sge.length.toNat ≤ 128 := by omega
    obtain ⟨hturn, hstands⟩ := h.turn data sges hend hc hlen
    obtain ⟨hcopy, hnext⟩ : splitStore ctx n s.m c (load data sge.addr.toNat sge.length.toNat) =
          (sendRing ctx n hn).store s.m o (load data sge.addr.toNat sge.length.toNat) ∧
        (sendRing ctx n hn).At (nextCursor (64 * n) c sge.length.toNat)
          (o + sge.length.toNat) := by
      rw [splitStore, nextCursor]
      rw [length_load]
      by_cases hsplit : 64 * n < c + sge.length.toNat
      · rw [if_pos hsplit, if_pos hsplit]
        refine ⟨(hat.store_split ?_ ?_).symm, hat.wrap hsplit.le (show _ ≤ 64 * n by omega)⟩
        · rw [length_load]
          exact hsplit.le
        · rw [length_load]
          exact show _ ≤ 64 * n by omega
      · rw [if_neg hsplit, if_neg hsplit]
        refine ⟨(hat.store_eq ?_).symm, hat.add (show _ ≤ 64 * n by omega)⟩
        rw [length_load]
        exact show _ ≤ 64 * n by omega
    obtain ⟨s', hs', hm, hinl, hcopied⟩ := ih hstands hnext (by omega) (by omega)
    refine ⟨s', hturn.trans hs', ?_, by rw [hinl, Nat.add_assoc], by rw [hcopied, Nat.add_assoc]⟩
    rw [hm, contents_cons, Circular.store_append, length_load, ← hcopy, copyOne]

/-- The header and the size, for the counts that pass. -/
theorem inlineSeg_eq : ∀ k : Fin 129,
    (UInt32.ofInt k.val ||| MLX5_WRAPPER_INLINE_SEG).toNat = k + MLX5_WRAPPER_INLINE_SEG.toNat ∧
      inlAlign k.val = divRoundUp (k + 4) 16 := by
  decide

theorem stands_start (m : Mem) {p : ℕ} (hp : p + 4 ≤ 64 * n) :
    Stands ctx n { m, wqe := ctx.sqStart + p + 4 } 0 (p + 4) :=
  ⟨rfl, rfl, Nat.add_assoc _ _ _, by omega, by omega⟩

theorem setDataInlSeg_enomem (data m : Mem) (sz : ℤ)
    (hend : ctx.sqEnd = ctx.sqStart + 64 * n) {p : ℕ} {sgList : List Sge}
    (hp : p + 4 ≤ 64 * n) (hov : NoOverflow 0 sgList)
    (hin : StaysInside (64 * n) 0 (p + 4) sgList) (hover : 128 < byteSum sgList) :
    ∃ r, setDataInlSeg ctx data m sgList (ctx.sqStart + p) sz 0 0 = .ok r ∧
      InlineOk ctx n p sz sgList data r := by
  obtain ⟨s', hs', hcopied⟩ := inlLoop_enomem data sgList hend (stands_start m hp) hov hin
    (by omega)
  refine ⟨{ m := s'.m, ret := .error .enomem, copied := s'.copied }, ?_, ?_, ?_, ?_⟩
  · rw [setDataInlSeg, List.drop_zero, hs']
    rfl
  · exact ⟨fun _ => hover, fun _ => rfl⟩
  · exact hcopied
  · exact fun hle => absurd hover (Nat.not_lt.mpr hle)

/-- The queue after inline data: the bytes around it, and their header. -/
def inlineMem (ctx : ConnContext) (n : ℕ) (hn : 0 < n) (data m : Mem) (p : ℕ)
    (sgList : List Sge) : Mem :=
  let stored := (sendRing ctx n hn).store m (p + 4) (contents data sgList)
  if byteSum sgList = 0 then stored
  else store stored (ctx.sqStart + p)
    (beBytes 4 (byteSum sgList + MLX5_WRAPPER_INLINE_SEG.toNat))

/-- It leaves what lies before the header. -/
theorem load_inlineMem_before (hn : 0 < n) {m : Mem} {p q k : ℕ} {sgList : List Sge}
    (hq : q + k ≤ p) (hp : p + 4 ≤ 64 * n) (hlap : p + 4 + byteSum sgList ≤ q + 64 * n) :
    load (inlineMem ctx n hn data m p sgList) (ctx.sqStart + q) k =
      load m (ctx.sqStart + q) k := by
  have hring : load ((sendRing ctx n hn).store m (p + 4) (contents data sgList))
      (ctx.sqStart + q) k = load m (ctx.sqStart + q) k := by
    refine Circular.load_store_before (by omega) hp ?_
    rw [length_contents]
    exact hlap
  rw [inlineMem]
  split
  · exact hring
  · rw [load_store_beBytes_of_disjoint (by omega), hring]

/-- The call on a list that is not too long. -/
theorem setDataInlSeg_eq (data m : Mem) (hn : 0 < n) (hend : ctx.sqEnd = ctx.sqStart + 64 * n)
    {p : ℕ} {sz : ℤ} {sgList : List Sge} (hp : p + 4 ≤ 64 * n) (hle : byteSum sgList ≤ 128)
    (hfits : byteSum sgList ≤ 64 * n) (hsz : 0 ≤ sz) (hroom : sz + 16 < 2 ^ 31) :
    setDataInlSeg ctx data m sgList (ctx.sqStart + p) sz 0 0 =
      .ok { m := inlineMem ctx n hn data m p sgList
            ret := .ok (sz + inlineUnits (byteSum sgList)), copied := byteSum sgList } := by
  have hat : (sendRing ctx n hn).At (p + 4) (p + 4) := ⟨hp, rfl⟩
  obtain ⟨s', hs', hm, hinl, hcopied⟩ := inlLoop_stored data sgList hn hend
    (stands_start m hp) hat hfits (by omega)
  rw [Nat.zero_add] at hinl hcopied
  rw [setDataInlSeg, List.drop_zero, hs']
  by_cases hzero : byteSum sgList = 0
  · simp [hinl, hm, hcopied, hzero, inlineMem, inlineUnits, bind, Except.bind, pure, Except.pure]
  · obtain ⟨hheader, halign⟩ := inlineSeg_eq ⟨byteSum sgList, by omega⟩
    have hunits : divRoundUp (byteSum sgList + 4) 16 ≤ 9 := divRoundUp_le (by decide) (by omega)
    simp only [bind, Except.bind, hinl, halign, hheader, pure, Except.pure]
    rw [if_pos (by omega), toInt_of_lt (by omega) (by omega), hm, hcopied, inlineMem,
      if_neg hzero, inlineUnits, if_neg hzero]

end Builder

end Rdma
