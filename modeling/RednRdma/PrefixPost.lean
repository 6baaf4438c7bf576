/-
A list of posts that stops at an error (`mlx5_intf.c`).

The error exits of `mlx5_post_send` jump to the code that rings the doorbell, with the
variables of the iteration before.  What it leaves is what a call on the work requests in
front of the rejected one leaves: the WQEs they are built into are numbered, and the doorbell
is rung for the last of them.

* `Builds` — work requests that are built into WQEs, one after the other;
* `postLoop_append` — the loop runs through the requests that are built;
* `failing_post_is_prefix` — a post that fails is a post of the requests before.
-/
import RednRdma.WqeBuilder

namespace Rdma

open Bytes

namespace Builder

/-- A WQE that is built: its first block, and its size in units. -/
structure Built where
  idx : ℕ
  size : ℤ

/-- The variables of `mlx5_post_send` after an iteration. -/
def PostVars.next (s : PostVars) (wr : WorkRequest) (m : Mem) (built : Built) : PostVars where
  ctx := advance s.ctx built.idx wr.wrId built.size
  m := m
  nreq := s.nreq + 1
  wqe2ring := getSendWqe s.ctx built.idx
  size := built.size

/-- From `s`, every work request is built into a WQE, which leads to `t`. -/
inductive Builds (data : Mem) : PostVars → List WorkRequest → List Built → PostVars → Prop
  | nil (s : PostVars) : Builds data s [] [] s
  | cons {s t : PostVars} {wr : WorkRequest} {wrs : List WorkRequest} {iqp : Mlx5dvQp} {m : Mem}
      {built : Built} {builts : List Built}
      (hiqp : s.ctx.iqp = some iqp) (hidx : built.idx = wqeIdx s.ctx iqp)
      (hsge : wr.sgList.length ≤ 16)
      (hpost : mlx5PostSendOne s.ctx data s.m wr (getSendWqe s.ctx built.idx) =
        .ok (m, .ok built.size))
      (hrest : Builds data (s.next wr m built) wrs builts t) :
      Builds data s (wr :: wrs) (built :: builts) t

/-- `mlx5_post_send` rejects the work request with `e`: it has more than 16 SGEs, or
`__mlx5_post_send` returns the error. -/
def Rejects (ctx : ConnContext) (data m : Mem) (wr : WorkRequest) (e : Errno) : Prop :=
  ∃ iqp, ctx.iqp = some iqp ∧
    (16 < wr.sgList.length ∧ e = .enomem ∨
      wr.sgList.length ≤ 16 ∧
        ∃ m', mlx5PostSendOne ctx data m wr (getSendWqe ctx (wqeIdx ctx iqp)) =
          .ok (m', .error e))

/-! ### The loop -/

/-- The loop builds what can be built and goes on behind it. -/
theorem postLoop_append {data : Mem} {s t : PostVars} {wrs : List WorkRequest}
    {builts : List Built} (h : Builds data s wrs builts t) (rest : List WorkRequest) :
    postLoop data (wrs ++ rest) s = postLoop data rest t := by
  induction h with
  | nil s => rfl
  | @cons s t wr wrs iqp m built builts hiqp hidx hsge hpost hrest ih =>
    rw [hidx] at hpost
    have hnot : ¬ wr.sgList.length > 16 := by omega
    rw [List.cons_append, postLoop, hiqp]
    simp only [deref, bind, Except.bind, if_neg hnot, hpost]
    rw [← ih, PostVars.next, hidx]

/-- A loop that comes to the end of its list has built every work request. -/
theorem builds_of_postLoop {data : Mem} {wrs : List WorkRequest} {s t : PostVars}
    (h : postLoop data wrs s = .ok (t, none)) : ∃ builts, Builds data s wrs builts t := by
  induction wrs generalizing s with
  | nil =>
    simp only [postLoop, Except.ok.injEq, Prod.mk.injEq, and_true] at h
    exact ⟨[], h ▸ Builds.nil s⟩
  | cons wr wrs ih =>
    rw [postLoop] at h
    obtain ⟨iqp, hiqp, h⟩ := Except.bind_eq_ok.mp h
    rw [deref_eq_ok] at hiqp
    -- the two ways to stop at `wr` both leave an error
    by_cases hsge : wr.sgList.length > 16
    · simp [hsge] at h
    rw [if_neg hsge] at h
    obtain ⟨⟨m, ret⟩, hpost, h⟩ := Except.bind_eq_ok.mp h
    cases ret with
    | error e => simp at h
    | ok size =>
      obtain ⟨builts, hrest⟩ := ih h
      exact ⟨⟨wqeIdx s.ctx iqp, size⟩ :: builts,
        Builds.cons hiqp rfl (by omega) hpost hrest⟩

/-- At a work request that is rejected the loop stops, with the variables as they are. -/
theorem postLoop_rejects {data : Mem} {s : PostVars} {wr : WorkRequest} {e : Errno}
    (h : Rejects s.ctx data s.m wr e) (rest : List WorkRequest) :
    ∃ m, postLoop data (wr :: rest) s = .ok ({ s with m }, some (e, wr :: rest)) := by
  obtain ⟨iqp, hiqp, ⟨hsge, rfl⟩ | ⟨hsge, m, hpost⟩⟩ := h
  · refine ⟨s.m, ?_⟩
    rw [postLoop, hiqp]
    simp only [deref, bind, Except.bind, if_pos hsge]
    rfl
  · refine ⟨m, ?_⟩
    have hnot : ¬ wr.sgList.length > 16 := by omega
    rw [postLoop, hiqp]
    simp only [deref, bind, Except.bind, if_neg hnot, hpost]
    rfl

/-! ### What the WQEs leave in the context -/

namespace Builds

variable {data : Mem} {s t : PostVars} {wrs : List WorkRequest} {builts : List Built}

theorem length_eq (h : Builds data s wrs builts t) : builts.length = wrs.length := by
  induction h with
  | nil s => rfl
  | cons _ _ _ _ _ ih => rw [List.length_cons, ih, List.length_cons]

theorem nreq_eq (h : Builds data s wrs builts t) : t.nreq = s.nreq + builts.length := by
  induction h with
  | nil s => rfl
  | @cons s t wr wrs iqp m built builts _ _ _ _ _ ih =>
    have hnext : (s.next wr m built).nreq = s.nreq + 1 := rfl
    rw [ih, hnext, List.length_cons]
    omega

/-- The flags and the place of the queue stay as they are. -/
theorem kept (h : Builds data s wrs builts t) :
    t.ctx.flags = s.ctx.flags ∧ t.ctx.sqStart = s.ctx.sqStart := by
  induction h with
  | nil s => exact ⟨rfl, rfl⟩
  | cons _ _ _ _ _ ih => exact ih

/-- `scur_post` goes on by the blocks of every WQE, modulo `2 ^ 32`. -/
theorem scurPost_eq (h : Builds data s wrs builts t) :
    t.ctx.scurPost =
      s.ctx.scurPost + UInt32.ofInt (builts.map fun b => blocks b.size).sum := by
  induction h with
  | nil s => exact (add_zero s.ctx.scurPost).symm
  | cons _ _ _ _ _ ih =>
    rw [ih, List.map_cons, List.sum_cons, UInt32.ofInt_add, ← add_assoc]
    rfl

/-- Only the ids of the first blocks change. -/
theorem sqWrid_of_notMem (h : Builds data s wrs builts t) {i : ℕ}
    (hi : ∀ b ∈ builts, b.idx ≠ i) : t.ctx.sqWrid i = s.ctx.sqWrid i := by
  induction h with
  | nil s => rfl
  | cons _ _ _ _ _ ih =>
    obtain ⟨hne, hi⟩ := List.forall_mem_cons.mp hi
    rw [ih hi]
    exact Function.update_of_ne hne.symm _ _

/-- The doorbell is rung for the last WQE. -/
theorem last_eq (h : Builds data s wrs builts t) {last : Built}
    (hlast : builts.getLast? = some last) :
    t.wqe2ring = getSendWqe s.ctx last.idx ∧ t.size = last.size := by
  induction h with
  | nil s => simp at hlast
  | @cons s t wr wrs iqp m built builts _ _ _ _ hrest ih =>
    -- the last WQE is this one, or one of the rest
    rcases hl : builts.getLast? with _ | b
    · have hnil : builts = [] := List.getLast?_eq_none_iff.mp hl
      subst hnil
      simp only [List.getLast?_singleton, Option.some.injEq] at hlast
      subst hlast
      cases hrest
      exact ⟨rfl, rfl⟩
    · rw [List.getLast?_cons, hl] at hlast
      exact ih (hl.trans hlast)

end Builds

/-- What the WQEs leave of a context, and the doorbell that is rung for them. -/
structure Committed (ctx : ConnContext) (builts : List Built) (r : Posted) : Prop where
  scurPost : r.ctx.scurPost = ctx.scurPost + UInt32.ofInt (builts.map fun b => blocks b.size).sum
  sqWrid : ∀ i, (∀ b ∈ builts, b.idx ≠ i) → r.ctx.sqWrid i = ctx.sqWrid i
  managed : managedSend ctx.flags → r.bells = []
  rung : ¬ managedSend ctx.flags → ∀ last, builts.getLast? = some last →
    r.bells = [{ currPost := (r.ctx.scurPost &&& 0xffff).toNat, seg := getSendWqe ctx last.idx,
                 size := (last.size + 3).tdiv 4 }]
  nothing : builts = [] → r.ctx = ctx ∧ r.bells = []

/-- The doorbells that are rung from the variables a loop ends in. -/
def ringing (t : PostVars) : List Doorbell :=
  if t.nreq ≠ 0 then
    if managedSend t.ctx.flags then []
    else [{ currPost := (t.ctx.scurPost &&& 0xffff).toNat, seg := t.wqe2ring,
            size := (t.size + 3).tdiv 4 }]
  else []

theorem mlx5PostSend_eq {ctx : ConnContext} {data m : Mem} {wrs : List WorkRequest}
    {t : PostVars} {err : Option (Errno × List WorkRequest)}
    (h : postLoop data wrs { ctx, m } = .ok (t, err)) :
    mlx5PostSend ctx data m wrs =
      .ok { ctx := t.ctx, m := t.m, ret := err.map Prod.fst, badWr := err.map Prod.snd,
            bells := ringing t } := by
  rw [mlx5PostSend, h]
  rfl

theorem Builds.committed {ctx : ConnContext} {data m : Mem} {wrs : List WorkRequest}
    {builts : List Built} {t : PostVars} (h : Builds data { ctx, m } wrs builts t) {r : Posted}
    (hctx : r.ctx = t.ctx) (hbells : r.bells = ringing t) : Committed ctx builts r := by
  obtain ⟨hflags, hstart⟩ := h.kept
  have hnreq := h.nreq_eq
  constructor
  case scurPost => rw [hctx, h.scurPost_eq]
  case sqWrid =>
    intro i hi
    rw [hctx, h.sqWrid_of_notMem hi]
  case managed =>
    intro hmanaged
    rw [hbells, ringing, hflags]
    simp [hmanaged]
  case rung =>
    intro hmanaged last hlast
    obtain ⟨hseg, hsize⟩ := h.last_eq hlast
    have hpos : 0 < builts.length := List.length_pos_of_mem (List.mem_of_getLast? hlast)
    rw [hbells, ringing, if_pos (by omega), hflags, if_neg hmanaged, hctx, hseg, hsize]
  case nothing =>
    rintro rfl
    cases h
    exact ⟨hctx, hbells⟩

/-- A post that rejects the work request at `j` returns the error and the list from there, and
leaves what the post of the requests before leaves. -/
theorem failing_post_is_prefix (ctx : ConnContext) (data m : Mem) (wrs : List WorkRequest)
    (j : ℕ) {p : Posted} {wr : WorkRequest} {e : Errno}
    (hp : mlx5PostSend ctx data m (wrs.take j) = .ok p) (hnone : p.ret = none)
    (hwr : wrs[j]? = some wr) (hrej : Rejects p.ctx data p.m wr e) :
    ∃ r, mlx5PostSend ctx data m wrs = .ok r ∧ r.ret = some e ∧
      r.badWr = some (wrs.drop j) ∧ r.ctx = p.ctx ∧ r.bells = p.bells ∧
      ∃ builts t, Builds data { ctx, m } (wrs.take j) builts t ∧ t.ctx = r.ctx ∧
        builts.length = j ∧ Committed ctx builts r := by
  -- the call on the first `j`, as a loop without an error
  obtain ⟨⟨t, err⟩, hloop, -⟩ := Except.bind_eq_ok.mp hp
  rw [mlx5PostSend_eq hloop, Except.ok.injEq] at hp
  subst hp
  cases err with
  | some err => simp at hnone
  | none =>
    obtain ⟨builts, hbuilds⟩ := builds_of_postLoop hloop
    have hdrop : wrs.drop j = wr :: wrs.drop (j + 1) := by
      obtain ⟨hj, rfl⟩ := List.getElem?_eq_some_iff.mp hwr
      exact List.drop_eq_getElem_cons hj
    -- the loop builds the first `j`, and stops at the next
    obtain ⟨m', hstop⟩ := postLoop_rejects hrej (wrs.drop (j + 1))
    have hall := postLoop_append hbuilds (wrs.drop j)
    rw [List.take_append_drop, hdrop, hstop] at hall
    refine ⟨_, mlx5PostSend_eq hall, rfl, ?_, rfl, rfl, builts, t, hbuilds, rfl,
      ?_, hbuilds.committed rfl rfl⟩
    · rw [hdrop]
      rfl
    · rw [hbuilds.length_eq, List.length_take]
      have hj := (List.getElem?_eq_some_iff.mp hwr).1
      omega

/-- A queue of four blocks whose counter stands before its wrap. -/
def wrapping4 : ConnContext where
  iqp := some { sqBuf := 0x1000, sqWqeCnt := 4, sqStride := 64 }
  sqStart := 0x1000
  sqEnd := 0x1100
  scurPost := 0xffffffff

/-- An empty request, and one of too many SGEs. -/
def tooMany : List WorkRequest :=
  [{ wrId := 7, opcode := .nop },
    { wrId := 8, opcode := .send, sgList := List.replicate 17 ⟨0x100, 8, 1⟩ }]

/-- The first is numbered, past the wrap, and the doorbell is rung for it. -/
theorem failing_post_second :
    ∃ r, mlx5PostSend wrapping4 (fun _ => 0) (fun _ => 0) tooMany = .ok r ∧
      r.ret = some .enomem ∧ r.badWr = some (tooMany.drop 1) ∧ r.ctx.scurPost = 0 ∧
      r.ctx.sqWrid 3 = 7 ∧ r.bells = [{ currPost := 0, seg := 0x10c0, size := 1 }] := by
  obtain ⟨r, hr, hret, hbad, hctx, hbells, -⟩ := failing_post_is_prefix
    wrapping4 (fun _ => 0) (fun _ => 0) tooMany 1 rfl rfl rfl ⟨_, rfl, Or.inl ⟨by decide, rfl⟩⟩
  exact ⟨r, hr, hret, hbad, by rw [hctx]; rfl, by rw [hctx]; rfl, hbells⟩

end Builder

end Rdma
