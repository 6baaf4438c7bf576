/-
The chain of a trigger, entry by entry (`verbs.c`).

`IBV_SET_TRIGGER` fills an array of `2 * nops - 1` work requests, an enable and then a wait and
an enable a turn, and links each entry to the one behind it.  `Verbs` has the chain as a list;
the call here works on the array.

* `prepare` — the array that is handed to the device;
* `Filled.turn_eq` — what a turn of the loop adds;
* `prepare_filled` — after the loop all entries are filled;
* `set_trigger_chain` — what the device finds when it follows the links;
* `ibvSetTrigger_refines` — it is the chain `Rdma.ibvSetTrigger` posts.
-/
import RednRdma.Lib.Linked
import RednRdma.PostCall

namespace Rdma

namespace Trigger

open Linked

/-- `struct ibv_exp_send_wr` as an entry of the array; what is left out is zero. -/
structure ExpSendWr extends WorkRequest where
  opcode := .rdmaWrite
  next : ℕ := 0
  deriving Repr, DecidableEq

/-- `INT_MAX`. -/
abbrev INT_MAX : ℤ := 2 ^ 31 - 1

/-- `2 * nops - 1`, where an `int` holds it. -/
def entryCount (nops : ℤ) : Except Stop ℤ :=
  let n := 2 * nops - 1
  if n ≤ INT_MAX then .ok n else .error .fault

/-- `struct ibv_exp_send_wr wr[n]`, zeroed: there is no array of no entries. -/
def newArray (base : ℕ) (n : ℤ) : Except Stop (Heap ExpSendWr) :=
  if n ≤ 0 then .error .fault
  else .ok fun a => if base ≤ a ∧ a < base + n.toNat then some {} else none

/-- `&wr[i]`. -/
def entryAddr (base : ℕ) (i : ℤ) : ℕ := base + i.toNat

/-- `wr[i] = entry`. -/
def setEntry (base : ℕ) (n : ℤ) (wrs : Heap ExpSendWr) (i : ℤ) (entry : ExpSendWr) :
    Except Stop (Heap ExpSendWr) :=
  if 0 ≤ i ∧ i < n then .ok (Function.update wrs (entryAddr base i) (some entry))
  else .error .fault

/-- What an enable is set to. -/
def enable (ctx : ConnContext) (nwait : UInt32) (wrId : UInt32) (next : ℕ) : ExpSendWr where
  wrId := wrId.toUInt64
  next := next
  opcode := .sendEnable
  flags := { waitEnLast := true }
  task := .wqeEnable ctx.qpNum nwait

/-- What a wait is set to. -/
def wait (ctx : ConnContext) (nwait : UInt32) (wrId : UInt32) (next : ℕ) : ExpSendWr where
  wrId := wrId.toUInt64
  next := next
  opcode := .cqeWait
  flags := { waitEnLast := true }
  task := .cqeWait ctx.cq nwait

/-- The variables of the loop. -/
structure Loop where
  wrs : Heap ExpSendWr
  mctx : ConnContext
  i : ℤ

variable (base : ℕ) (n : ℤ) (ctx : ConnContext) (nwait : UInt32)

/-- The entry in front of the loop. -/
def firstEntry (wrs : Heap ExpSendWr) (mctx : ConnContext) : Except Stop Loop := do
  let (wrId, mctx) := nextWrId mctx 1
  let wrs ← setEntry base n wrs 0
    (enable ctx nwait wrId (if n > 1 then entryAddr base 1 else 0))
  return { wrs, mctx, i := 1 }

/-- The body of the loop. -/
def turn (s : Loop) : Except Stop Loop := do
  let (wrId, mctx) := nextWrId s.mctx 1
  let wrs ← setEntry base n s.wrs s.i (wait ctx nwait wrId (entryAddr base (s.i + 1)))
  let (wrId, mctx) := nextWrId mctx 1
  let wrs ← setEntry base n wrs (s.i + 1)
    (enable ctx nwait wrId (if s.i < n - 2 then entryAddr base (s.i + 2) else 0))
  return { wrs, mctx, i := s.i + 2 }

/-- `for(int i=1; i<n; i+=2)`; `none` without the fuel. -/
def loop : ℕ → Loop → Option (Except Stop Loop)
  | fuel, s =>
    if s.i < n then
      match fuel with
      | 0 => none
      | fuel + 1 =>
        match turn base n ctx nwait s with
        | .error e => some (.error e)
        | .ok s => loop fuel s
    else some (.ok s)

/-- What `ibv_exp_post_task` is handed, and the context of the poster by then. -/
structure Handed where
  wrs : Heap ExpSendWr
  sendWr : ℕ
  mctx : ConnContext

/-- `IBV_SET_TRIGGER` up to its post. -/
def prepare (fuel : ℕ) (mctx : ConnContext) (nops : ℤ) : Option (Except Stop Handed) :=
  let init := do
    let n ← entryCount nops
    let wrs ← newArray base n
    let s ← firstEntry base n ctx nwait wrs mctx
    return (n, s)
  match init with
  | .error e => some (.error e)
  | .ok (n, s) =>
    (loop base n ctx nwait fuel s).map fun r =>
      r.map fun s => { wrs := s.wrs, sendWr := entryAddr base 0, mctx := s.mctx }

/-- The list the driver reads. -/
def Handed.requests (h : Handed) (fuel : ℕ) : Option (List WorkRequest) :=
  (walk ExpSendWr.next h.wrs fuel h.sendWr).map fun nodes =>
    nodes.map fun x => x.2.toWorkRequest

/-- `IBV_SET_TRIGGER`. -/
def ibvSetTrigger (fuel : ℕ) (c : Conn) (nops : ℤ) : Option (Except Stop Conn) :=
  match prepare base ctx nwait fuel c.ctx nops with
  | none => none
  | some (.error e) => some (.error e)
  | some (.ok h) =>
    (h.requests fuel).map fun wrs =>
      match c.qp.postList wrs with
      | some qp => .ok { ctx := h.mctx, qp }
      | none => .error (.rcDie "failed to post rdma task")

/-! ### The entries -/

/-- Entry `j` of an array of `n`, once it is set. -/
def entry (mctx : ConnContext) (n j : ℕ) : ExpSendWr :=
  let wrId := mctx.lastSend + UInt32.ofNat (j + 1)
  let next := if j + 1 < n then base + (j + 1) else 0
  if j % 2 = 0 then enable ctx nwait wrId next else wait ctx nwait wrId next

/-- The context once `j` ids are taken. -/
def taken (mctx : ConnContext) (j : ℕ) : ConnContext :=
  { mctx with lastSend := mctx.lastSend + UInt32.ofNat j }

/-- Between two turns: `2 * k + 1` entries are set, and as many ids taken. -/
structure Filled (mctx : ConnContext) (n k : ℕ) (s : Loop) : Prop where
  i : s.i = (2 * k + 1 : ℕ)
  ids : s.mctx = taken mctx (2 * k + 1)
  set : ∀ j ≤ 2 * k, s.wrs (base + j) = some (entry base ctx nwait mctx n j)

variable {base ctx nwait} {mctx : ConnContext}

theorem entry_next (n j : ℕ) :
    (entry base ctx nwait mctx n j).next = if j + 1 < n then base + (j + 1) else 0 := by
  rw [entry]
  split <;> rfl

theorem entry_even {n j : ℕ} (hj : j % 2 = 0) :
    entry base ctx nwait mctx n j =
      enable ctx nwait (mctx.lastSend + UInt32.ofNat (j + 1))
        (if j + 1 < n then base + (j + 1) else 0) :=
  if_pos hj

theorem entry_odd {n j : ℕ} (hj : j % 2 = 1) :
    entry base ctx nwait mctx n j =
      wait ctx nwait (mctx.lastSend + UInt32.ofNat (j + 1))
        (if j + 1 < n then base + (j + 1) else 0) :=
  if_neg (by omega)

theorem nextWrId_taken (mctx : ConnContext) (j : ℕ) :
    nextWrId (taken mctx j) 1 = (mctx.lastSend + UInt32.ofNat (j + 1), taken mctx (j + 1)) := by
  have hnext : mctx.lastSend + UInt32.ofNat j + 1 = mctx.lastSend + UInt32.ofNat (j + 1) := by
    rw [add_assoc, UInt32.ofNat_add]
    rfl
  rw [nextWrId_send, bumpSend, taken, taken, hnext]

theorem setEntry_eq {n j : ℕ} {i : ℤ} (hi : i = j) (hj : j < n) (wrs : Heap ExpSendWr)
    (e : ExpSendWr) :
    setEntry base n wrs i e = .ok (Function.update wrs (base + j) (some e)) := by
  rw [setEntry, if_pos ⟨by omega, by omega⟩, entryAddr, hi]
  rfl

/-- A link is taken for the last entry or for one that has another behind it. -/
theorem link_eq {p : Prop} [Decidable p] {i : ℤ} {n j : ℕ} (hi : i = (j + 1 : ℕ))
    (hp : p ↔ j + 1 < n) :
    (if p then entryAddr base i else 0) = if j + 1 < n then base + (j + 1) else 0 := by
  rw [hi]
  exact if_congr hp rfl rfl

/-- The entry in front of the loop is set as every second one is. -/
theorem firstEntry_eq {n : ℕ} (hn : 0 < n) (wrs : Heap ExpSendWr) :
    firstEntry base n ctx nwait wrs mctx =
      .ok { wrs := Function.update wrs (base + 0) (some (entry base ctx nwait mctx n 0))
            mctx := taken mctx 1
            i := 1 } := by
  have hlink : (if (n : ℤ) > 1 then entryAddr base 1 else 0) =
      if 0 + 1 < n then base + (0 + 1) else 0 := link_eq rfl (by omega)
  rw [firstEntry, hlink, entry_even rfl]
  exact congrArg (· >>= _) (setEntry_eq rfl hn _ _)

theorem firstEntry_filled {n : ℕ} (wrs : Heap ExpSendWr) :
    Filled base ctx nwait mctx n 0
      { wrs := Function.update wrs (base + 0) (some (entry base ctx nwait mctx n 0))
        mctx := taken mctx 1
        i := 1 } := by
  refine ⟨rfl, rfl, ?_⟩
  intro j hj
  obtain rfl : j = 0 := by omega
  exact Function.update_self _ _ _

/-- **A turn** sets two entries more, each linked to the one behind it. -/
theorem Filled.turn_eq {m k : ℕ} {s : Loop} (h : Filled base ctx nwait mctx (2 * m + 1) k s)
    (hk : k < m) :
    turn base (2 * m + 1 : ℕ) ctx nwait s =
      .ok { wrs := Function.update
              (Function.update s.wrs (base + (2 * k + 1))
                (some (entry base ctx nwait mctx (2 * m + 1) (2 * k + 1))))
              (base + (2 * k + 2)) (some (entry base ctx nwait mctx (2 * m + 1) (2 * k + 2)))
            mctx := taken mctx (2 * (k + 1) + 1)
            i := s.i + 2 } := by
  obtain ⟨hi, hids, -⟩ := h
  have hwait : wait ctx nwait (mctx.lastSend + UInt32.ofNat (2 * k + 1 + 1))
      (entryAddr base (s.i + 1)) = entry base ctx nwait mctx (2 * m + 1) (2 * k + 1) := by
    rw [entry_odd (by omega), if_pos (by omega), hi]
    rfl
  have henable : enable ctx nwait (mctx.lastSend + UInt32.ofNat (2 * k + 1 + 1 + 1))
      (if s.i < (2 * m + 1 : ℕ) - 2 then entryAddr base (s.i + 2) else 0) =
        entry base ctx nwait mctx (2 * m + 1) (2 * k + 2) := by
    rw [entry_even (by omega), link_eq (j := 2 * k + 2) (n := 2 * m + 1) (by omega) (by omega)]
  rw [turn, hids, nextWrId_taken]
  simp only [nextWrId_taken, hwait, henable]
  exact Except.bind_eq_ok.mpr ⟨_, setEntry_eq hi (by omega) _ _,
    Except.bind_eq_ok.mpr ⟨_, setEntry_eq (by omega) (by omega) _ _, rfl⟩⟩

theorem Filled.next {m k : ℕ} {s : Loop} (h : Filled base ctx nwait mctx (2 * m + 1) k s)
    (hk : k < m) :
    ∃ s', turn base (2 * m + 1 : ℕ) ctx nwait s = .ok s' ∧
      Filled base ctx nwait mctx (2 * m + 1) (k + 1) s' := by
  refine ⟨_, h.turn_eq hk, ?_, rfl, ?_⟩
  · show s.i + 2 = _
    rw [h.i]
    omega
  · intro j hj
    show Function.update (Function.update _ _ _) _ _ (base + j) = _
    rcases Nat.lt_or_ge j (2 * k + 2) with hlt | hge
    · rw [Function.update_of_ne (by omega)]
      rcases Nat.lt_or_ge j (2 * k + 1) with hlt | hge
      · rw [Function.update_of_ne (by omega)]
        exact h.set j (by omega)
      · obtain rfl : j = 2 * k + 1 := by omega
        exact Function.update_self _ _ _
    · obtain rfl : j = 2 * k + 2 := by omega
      exact Function.update_self _ _ _

/-- The loop sets the rest. -/
theorem Filled.loop_eq {m k fuel : ℕ} {s : Loop} (h : Filled base ctx nwait mctx (2 * m + 1) k s)
    (hk : k ≤ m) (hfuel : m ≤ fuel + k) :
    ∃ s', loop base (2 * m + 1 : ℕ) ctx nwait fuel s = some (.ok s') ∧
      Filled base ctx nwait mctx (2 * m + 1) m s' := by
  induction fuel generalizing k s with
  | zero =>
    obtain rfl : k = m := by omega
    have hi := h.i
    exact ⟨s, by rw [loop, if_neg (by omega)], h⟩
  | succ fuel ih =>
    have hi := h.i
    rcases Nat.lt_or_ge k m with hlt | hge
    · obtain ⟨s₁, hturn, hs₁⟩ := h.next hlt
      obtain ⟨s', hloop, hs'⟩ := ih hs₁ hlt (by omega)
      refine ⟨s', ?_, hs'⟩
      rw [loop, if_pos (by omega)]
      simp only [hturn]
      exact hloop
    · obtain rfl : k = m := by omega
      exact ⟨s, by rw [loop, if_neg (by omega)], h⟩

/-! ### The array -/

/-- The array is handed over with every entry set. -/
theorem prepare_eq (base : ℕ) (ctx mctx : ConnContext) (nwait : UInt32) {m fuel : ℕ}
    (hfit : (2 * m + 1 : ℕ) ≤ INT_MAX) (hfuel : m ≤ fuel) :
    ∃ wrs, prepare base ctx nwait fuel mctx (m + 1 : ℕ) =
        some (.ok { wrs, sendWr := base, mctx := taken mctx (2 * m + 1) }) ∧
      ∀ j < 2 * m + 1, wrs (base + j) = some (entry base ctx nwait mctx (2 * m + 1) j) := by
  have hcount : entryCount (m + 1 : ℕ) = .ok (2 * m + 1 : ℕ) := by
    have hn : (2 * (m + 1 : ℕ) - 1 : ℤ) = (2 * m + 1 : ℕ) := by omega
    rw [entryCount, hn, if_pos hfit]
  obtain ⟨wrs, hwrs⟩ : ∃ wrs, newArray base (2 * m + 1 : ℕ) = .ok wrs :=
    ⟨_, if_neg (by omega)⟩
  have hfirst : Filled base ctx nwait mctx (2 * m + 1) 0 _ := firstEntry_filled wrs
  obtain ⟨s, hloop, hs⟩ := hfirst.loop_eq (Nat.zero_le m) (show m ≤ fuel + 0 by omega)
  refine ⟨s.wrs, ?_, fun j hj => hs.set j (by omega)⟩
  rw [prepare]
  simp only [hcount, hwrs, firstEntry_eq (show 0 < 2 * m + 1 by omega), bind, Except.bind, pure,
    Except.pure]
  rw [hloop, ← hs.ids]
  rfl

variable (base ctx nwait) in
/-- The entries with their addresses, in index order. -/
def nodes (mctx : ConnContext) (n : ℕ) : List (ℕ × ExpSendWr) :=
  (List.range n).map fun j => (base + j, entry base ctx nwait mctx n j)

theorem nodes_length (n : ℕ) : (nodes base ctx nwait mctx n).length = n := by
  rw [nodes, List.length_map, List.length_range]

theorem nodes_isList (hbase : base ≠ 0) {m : ℕ} {wrs : Heap ExpSendWr}
    (hwrs : ∀ j < 2 * m + 1, wrs (base + j) = some (entry base ctx nwait mctx (2 * m + 1) j)) :
    IsList ExpSendWr.next wrs base (nodes base ctx nwait mctx (2 * m + 1)) := by
  have hlist := isList_range hbase hwrs (fun j _ => entry_next (2 * m + 1) j) (i := 0) (k := 2 * m)
    (Nat.zero_add _)
  rwa [← List.range_eq_range'] at hlist

theorem getElem?_nodes {n j : ℕ} {x : ℕ × ExpSendWr}
    (h : (nodes base ctx nwait mctx n)[j]? = some x) :
    j < n ∧ x = (base + j, entry base ctx nwait mctx n j) := by
  obtain ⟨hj, h⟩ := List.getElem?_eq_some_iff.mp h
  rw [nodes_length] at hj
  refine ⟨hj, ?_⟩
  rw [← h]
  simp [nodes]

/-! ### What the device finds -/

/-- The list from `wr[0]`: every entry once in index order, and null behind the last; enables of
the worker's queue and waits on its completion queue by turns, from an enable to an enable; and
the ids that follow the poster's last one. -/
structure Chain (base : ℕ) (mctx ctx : ConnContext) (nops : ℕ) (nwait : UInt32) (h : Handed)
    (nodes : List (ℕ × ExpSendWr)) : Prop where
  isList : IsList ExpSendWr.next h.wrs h.sendWr nodes
  addrs : nodes.map Prod.fst = (List.range (2 * nops - 1)).map fun i : ℕ => entryAddr base i
  enables : ∀ i x, nodes[i]? = some x → i % 2 = 0 →
    x.2.opcode = .sendEnable ∧ x.2.task = .wqeEnable ctx.qpNum nwait
  waits : ∀ i x, nodes[i]? = some x → i % 2 = 1 →
    x.2.opcode = .cqeWait ∧ x.2.task = .cqeWait ctx.cq nwait
  ends : ∀ x, x ∈ nodes.head? ∨ x ∈ nodes.getLast? → x.2.opcode = .sendEnable
  enableCount : (nodes.countP fun x => x.2.opcode = .sendEnable) = nops
  waitCount : (nodes.countP fun x => x.2.opcode = .cqeWait) = nops - 1
  ids : NumberedFrom mctx.lastSend (nodes.map fun x => x.2.toWorkRequest)

theorem entry_opcode (n j : ℕ) :
    (entry base ctx nwait mctx n j).opcode = if j % 2 = 0 then .sendEnable else .cqeWait := by
  rw [entry]
  split <;> rfl

/-- As many even indexes as pairs and one, and as many odd ones as pairs. -/
theorem count_parity (m : ℕ) :
    (List.range (2 * m + 1)).countP (fun j => j % 2 = 0) = m + 1 ∧
      (List.range (2 * m + 1)).countP (fun j => j % 2 = 1) = m := by
  induction m with
  | zero => exact ⟨rfl, rfl⟩
  | succ m ih =>
    have hodd : (2 * m + 1) % 2 = 1 := by omega
    have heven : (2 * m + 1 + 1) % 2 = 0 := by omega
    rw [show 2 * (m + 1) + 1 = 2 * m + 1 + 1 + 1 by omega, List.range_succ, List.range_succ]
    simp [List.countP_append, ih, heven, hodd]

theorem nodes_countP (p : WrOpcode → Bool) (n : ℕ) :
    ((nodes base ctx nwait mctx n).countP fun x => p x.2.opcode) =
      (List.range n).countP fun j => p (if j % 2 = 0 then .sendEnable else .cqeWait) := by
  rw [nodes, List.countP_map]
  refine List.countP_congr ?_
  intro j _
  simp only [Function.comp_apply, entry_opcode]

theorem nodes_chain (hbase : base ≠ 0) {m : ℕ} {h : Handed} (hhead : h.sendWr = base)
    (hwrs : ∀ j < 2 * m + 1, h.wrs (base + j) = some (entry base ctx nwait mctx (2 * m + 1) j)) :
    Chain base mctx ctx (m + 1) nwait h (nodes base ctx nwait mctx (2 * m + 1)) := by
  have hlen : 2 * (m + 1) - 1 = 2 * m + 1 := by omega
  obtain ⟨heven, hodd⟩ := count_parity m
  constructor
  case isList => exact hhead ▸ nodes_isList hbase hwrs
  case addrs =>
    rw [nodes, List.map_map, hlen]
    rfl
  case enables =>
    intro i x hx hi
    obtain ⟨-, rfl⟩ := getElem?_nodes hx
    rw [entry_even hi]
    exact ⟨rfl, rfl⟩
  case waits =>
    intro i x hx hi
    obtain ⟨-, rfl⟩ := getElem?_nodes hx
    rw [entry_odd hi]
    exact ⟨rfl, rfl⟩
  case ends =>
    intro x hx
    rw [List.head?_eq_getElem?, List.getLast?_eq_getElem?, Option.mem_def, Option.mem_def] at hx
    -- the first index and the last are both even
    rcases hx with hx | hx
    · obtain ⟨-, rfl⟩ := getElem?_nodes hx
      rw [entry_even rfl]
      rfl
    · rw [nodes_length] at hx
      obtain ⟨-, rfl⟩ := getElem?_nodes hx
      rw [entry_even (by omega)]
      rfl
  case enableCount =>
    rw [nodes_countP fun op => op = .sendEnable]
    refine (List.countP_congr fun j _ => ?_).trans heven
    rcases Nat.mod_two_eq_zero_or_one j with hpar | hpar <;> simp [hpar]
  case waitCount =>
    rw [nodes_countP fun op => op = .cqeWait, Nat.add_sub_cancel]
    refine (List.countP_congr fun j _ => ?_).trans hodd
    rcases Nat.mod_two_eq_zero_or_one j with hpar | hpar <;> simp [hpar]
  case ids =>
    intro i wr hwr
    rw [List.getElem?_map, Option.map_eq_some_iff] at hwr
    obtain ⟨x, hx, rfl⟩ := hwr
    obtain ⟨-, rfl⟩ := getElem?_nodes hx
    rw [entry]
    split <;> rfl

/-- **The trigger's chain**: for every number of operations whose entries an `int` counts, what
the device is handed is a chain of them; a greater one overflows before there is an array. -/
theorem set_trigger_chain (mctx ctx : ConnContext) (nwait : UInt32) {nops : ℤ}
    (hnops : 1 ≤ nops) {base : ℕ} (hbase : base ≠ 0) {fuel : ℕ} (hfuel : nops ≤ fuel) :
    (2 * nops - 1 ≤ INT_MAX ∧
      ∃ h nodes, prepare base ctx nwait fuel mctx nops = some (.ok h) ∧
        Chain base mctx ctx nops.toNat nwait h nodes) ∨
    INT_MAX < 2 * nops - 1 ∧ prepare base ctx nwait fuel mctx nops = some (.error .fault) := by
  obtain ⟨m, rfl⟩ : ∃ m : ℕ, nops = (m + 1 : ℕ) := ⟨(nops - 1).toNat, by omega⟩
  rcases le_or_gt (2 * ((m + 1 : ℕ) : ℤ) - 1) INT_MAX with hfit | hover
  · obtain ⟨wrs, hprepare, hwrs⟩ := prepare_eq base ctx mctx nwait
      (show (2 * m + 1 : ℕ) ≤ INT_MAX by omega) (show m ≤ fuel by omega)
    exact Or.inl ⟨hfit, _, _, hprepare, nodes_chain hbase rfl hwrs⟩
  · refine Or.inr ⟨hover, ?_⟩
    have hcount : entryCount (m + 1 : ℕ) = .error .fault := if_neg (not_le.mpr hover)
    rw [prepare]
    simp only [hcount, bind, Except.bind]

/-- Of three operations, from an id before the wrap: five entries. -/
theorem set_trigger_three :
    ∃ h nodes, prepare 0x1000 { qpNum := 7, cq := some 5 } 2 3 { lastSend := 0xffffffff } 3 =
        some (.ok h) ∧
      Chain 0x1000 { lastSend := 0xffffffff } { qpNum := 7, cq := some 5 } 3 2 h nodes := by
  rcases set_trigger_chain { lastSend := 0xffffffff } { qpNum := 7, cq := some 5 } 2
    (show (1 : ℤ) ≤ 3 by decide) (show 0x1000 ≠ 0 by decide) (show (3 : ℤ) ≤ (3 : ℕ) by decide)
    with ⟨-, h⟩ | ⟨hover, -⟩
  · exact h
  · exact absurd hover (by decide)

/-! ### The list of the other model -/

/-- Two operations more than one are an enable and a wait in front of one less. -/
theorem triggerChain_succ (m : ℕ) :
    triggerChain ctx (m + 2) nwait =
      (enable ctx nwait 0 0).toWorkRequest :: (wait ctx nwait 0 0).toWorkRequest ::
        triggerChain ctx (m + 1) nwait :=
  rfl

theorem getElem?_triggerChain {m j : ℕ} (hj : j < 2 * m + 1) :
    (triggerChain ctx (m + 1) nwait)[j]? =
      some (if j % 2 = 0 then (enable ctx nwait 0 0).toWorkRequest
        else (wait ctx nwait 0 0).toWorkRequest) := by
  induction m generalizing j with
  | zero =>
    obtain rfl : j = 0 := by omega
    rfl
  | succ m ih =>
    rw [triggerChain_succ]
    match j with
    | 0 => rfl
    | 1 => rfl
    | j + 2 =>
      rw [List.getElem?_cons_succ, List.getElem?_cons_succ, ih (by omega), Nat.add_mod_right]

theorem triggerChain_length (m : ℕ) : (triggerChain ctx (m + 1) nwait).length = 2 * m + 1 := by
  induction m with
  | zero => rfl
  | succ m ih =>
    rw [triggerChain_succ, List.length_cons, List.length_cons, ih]
    omega

/-- The entries are the requests of the chain, numbered. -/
theorem nodes_requests (mctx : ConnContext) (m : ℕ) :
    ((nodes base ctx nwait mctx (2 * m + 1)).map fun x => x.2.toWorkRequest) =
      (takeIds mctx (triggerChain ctx (m + 1) nwait)).1 := by
  refine List.ext_getElem? ?_
  intro j
  rw [getElem?_takeIds, List.getElem?_map]
  rcases Nat.lt_or_ge j (2 * m + 1) with hj | hj
  · rw [getElem?_triggerChain hj, nodes, List.getElem?_map, List.getElem?_range hj]
    rcases Nat.mod_two_eq_zero_or_one j with hpar | hpar
    · rw [if_pos hpar, Option.map_some, entry_even hpar]
      rfl
    · rw [if_neg (by omega), Option.map_some, entry_odd hpar]
      rfl
  · rw [List.getElem?_eq_none (by rw [nodes_length]; exact hj),
      List.getElem?_eq_none (by rw [triggerChain_length]; exact hj)]
    rfl

/-- **Refinement**: the call on the array posts the chain that the call on lists posts. -/
theorem ibvSetTrigger_refines (c : Conn) (ctx : ConnContext) (nwait : UInt32) {nops : ℤ}
    (hfit : 2 * nops - 1 ≤ INT_MAX) {base : ℕ} (hbase : base ≠ 0) {fuel : ℕ}
    (hfuel : 2 * nops - 1 ≤ fuel) :
    ibvSetTrigger base ctx nwait fuel c nops = some (Rdma.ibvSetTrigger c ctx nops nwait) := by
  rcases le_or_gt nops 0 with hneg | hpos
  · have hcount : entryCount nops = .ok (2 * nops - 1) := if_pos hfit
    have harray : newArray base (2 * nops - 1) = .error .fault := if_pos (by omega)
    rw [ibvSetTrigger, prepare, Rdma.ibvSetTrigger, if_pos hneg]
    simp only [hcount, harray, bind, Except.bind]
  · obtain ⟨m, rfl⟩ : ∃ m : ℕ, nops = (m + 1 : ℕ) := ⟨(nops - 1).toNat, by omega⟩
    obtain ⟨wrs, hprepare, hwrs⟩ := prepare_eq base ctx c.ctx nwait
      (show (2 * m + 1 : ℕ) ≤ INT_MAX by omega) (show m ≤ fuel by omega)
    have hlen : (nodes base ctx nwait c.ctx (2 * m + 1)).length ≤ fuel := by
      rw [nodes_length]
      omega
    have hwalk := walk_eq_some (nodes_isList hbase hwrs) hlen
    rw [ibvSetTrigger, hprepare, Rdma.ibvSetTrigger, if_neg (by omega)]
    simp only [Handed.requests, hwalk, Option.map_some, nodes_requests]
    have hids : taken c.ctx (2 * m + 1) = (takeIds c.ctx (triggerChain ctx (m + 1) nwait)).2 := by
      rw [takeIds_snd, triggerChain_length]
      rfl
    rw [hids]
    rfl

end Trigger

end Rdma
