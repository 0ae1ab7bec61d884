import QuantumKernel.Library.Transition
import QuantumKernel.Net.Stack

/-! # Who answers a ping

`icmp_ping` numbers its requests, and an echo reply repeats the number of the request that it
answers.  `icmp_rx` does not look at the number: any echo reply that comes while
`ping_waiting` is set ends the waiting.
-/

namespace QuantumKernel.Net

open Packed Transition

/-- `icmp_get_status`. -/
def icmpGetStatus (n : Stack) : Int32 := if n.icmp.pingWaiting then 1 else 0

/-- `icmp_reset_status`. -/
def icmpResetStatus (n : Stack) : Stack := { n with icmp := { n.icmp with pingWaiting := false } }

/-- What happens to the variables of `icmp.c`. -/
inductive PingCall
  | ping (ip : UInt32)
  | getStatus
  | resetStatus
  /-- `ip_rx`. -/
  | receive (pkt : List UInt8) (len : UInt16)
  /-- Everything that leaves the variables of `icmp.c` alone. -/
  | other (n : Stack)

/-- The stack, and the last request that `icmp_ping` passed to `ip_tx`. -/
structure Pinging where
  stack : Stack
  request : Option (List UInt8)

def Pinging.step (t : Pinging) : PingCall → Option (Int32 × Pinging)
  | .ping ip => do
    let (_, n) ← icmpPing t.stack ip
    some (0, ⟨n, some (icmpRequest t.stack.icmp.pingId (t.stack.icmp.pingSeq + 1))⟩)
  | .getStatus => some (icmpGetStatus t.stack, t)
  | .resetStatus => some (0, { t with stack := icmpResetStatus t.stack })
  | .receive pkt len => do
    let n ← ipRx t.stack pkt len
    some (0, { t with stack := n })
  | .other n => some (0, { t with stack := { n with icmp := t.stack.icmp } })

/-- An echo reply with the `id` and the `seq` of a request. -/
def RepliesTo (request reply : List UInt8) : Prop :=
  readByte reply 0 = some 0 ∧ readWord16 reply 4 = readWord16 request 4 ∧
    readWord16 reply 6 = readWord16 request 6

/-- If the call is a received packet that ends the waiting, it replies to the last request. -/
def OwnReply (t : Pinging) (call : PingCall) : Prop :=
  ∀ pkt len r t', call = .receive pkt len → t.step call = some (r, t') →
    t.stack.icmp.pingWaiting = true → t'.stack.icmp.pingWaiting = false →
    ∃ payload payloadLen request, ipRxIcmp pkt len = some (some (payload, payloadLen)) ∧
      t.request = some request ∧ RepliesTo request payload

/-- An echo reply that is received during the waiting has the number of the last request. -/
def Numbered (t : Pinging) : PingCall → Prop
  | .receive pkt len => t.stack.icmp.pingWaiting = true →
    ∀ payload payloadLen, ipRxIcmp pkt len = some (some (payload, payloadLen)) → 8 ≤ payloadLen →
      readByte payload 0 = some 0 →
      readWord16 payload 4 = some t.stack.icmp.pingId ∧ readWord16 payload 6 = some t.stack.icmp.pingSeq
  | _ => True

/-- The static variables hold the number of the last request. -/
def Pinging.Recorded (t : Pinging) : Prop :=
  t.stack.icmp.pingWaiting = true →
    t.request = some (icmpRequest t.stack.icmp.pingId t.stack.icmp.pingSeq)

variable {n n' : Stack} {t t' : Pinging} {call : PingCall} {calls : List (PingCall × Int32)} {r : Int32}
  {id seq : UInt16} {pkt payload : List UInt8} {len payloadLen : UInt16} {ip : UInt32} {frames : List Frame}

/-! ## The number of a request -/

theorem icmpRequest_id : readWord16 (icmpRequest id seq) 4 = some id := by
  rw [icmpRequest, readWord16_append (by simp), readWord16_append (by simp [le16])]
  exact readWord16_le16 id

theorem icmpRequest_seq : readWord16 (icmpRequest id seq) 6 = some seq := by
  rw [icmpRequest, readWord16_append (by simp), readWord16_append (by simp [le16]),
    readWord16_append (by simp [le16])]
  exact List.append_nil (le16 seq) ▸ readWord16_le16 seq

theorem icmpPing_icmp (done : icmpPing n ip = some (frames, n')) :
    n'.icmp = ⟨n.icmp.pingId, n.icmp.pingSeq + 1, true, n.ticks⟩ := by
  simp only [icmpPing, Option.bind_eq_bind, Option.bind_eq_some_iff] at done
  obtain ⟨⟨result, sent, m⟩, tx, same⟩ := done
  cases same
  rw [ipTx] at tx
  split at tx
  · cases tx
  · split at tx
    · split at tx
      · cases tx
        rfl
      · split at tx
        · cases tx
        · cases tx
          rfl
    · cases tx
      rfl

/-! ## Receiving -/

/-- `icmp_rx` ends the waiting at any echo reply. -/
theorem icmpRx_waiting (done : icmpRx n pkt len = some n') (waiting : n.icmp.pingWaiting = true) :
    (n'.icmp.pingWaiting = false ↔ 8 ≤ len ∧ readByte pkt 0 = some 0) := by
  rw [icmpRx] at done
  split at done
  · rename_i short
    cases done
    simp [waiting, UInt16.not_le.mpr short]
  · rename_i enough
    simp only [Option.bind_eq_bind, Option.bind_eq_some_iff] at done
    obtain ⟨type, first, done⟩ := done
    rw [first]
    split at done
    · rename_i reply
      simp only [Option.bind_eq_some_iff] at done
      obtain ⟨seq, -, same⟩ := done
      cases same
      simp [UInt16.not_lt.mp enough, reply.1]
    · rename_i noReply
      cases done
      have other : type ≠ 0 := fun zero => noReply ⟨zero, waiting⟩
      simp [waiting, other]

/-- `icmp_rx` changes only whether a ping is waiting. -/
theorem icmpRx_keeps (done : icmpRx n pkt len = some n') :
    n' = n ∨ n' = icmpResetStatus n := by
  rw [icmpRx] at done
  split at done
  · cases done
    exact Or.inl rfl
  · simp only [Option.bind_eq_bind, Option.bind_eq_some_iff] at done
    obtain ⟨type, -, done⟩ := done
    split at done
    · simp only [Option.bind_eq_some_iff] at done
      obtain ⟨seq, -, same⟩ := done
      cases same
      exact Or.inr rfl
    · cases done
      exact Or.inl rfl

theorem ipRx_keeps (done : ipRx n pkt len = some n') : n' = n ∨ n' = icmpResetStatus n := by
  simp only [ipRx, Option.bind_eq_bind, Option.bind_eq_some_iff] at done
  obtain ⟨args, -, done⟩ := done
  cases args with
  | none =>
    cases done
    exact Or.inl rfl
  | some args => exact icmpRx_keeps done

/-- A datagram ends the waiting exactly if `icmp_rx` gets an echo reply from it. -/
theorem ipRx_waiting (done : ipRx n pkt len = some n') (waiting : n.icmp.pingWaiting = true) :
    (n'.icmp.pingWaiting = false ↔ ∃ payload payloadLen,
      ipRxIcmp pkt len = some (some (payload, payloadLen)) ∧ 8 ≤ payloadLen ∧ readByte payload 0 = some 0) := by
  simp only [ipRx, Option.bind_eq_bind, Option.bind_eq_some_iff] at done
  obtain ⟨args, icmp, done⟩ := done
  cases args with
  | none =>
    cases done
    simp [icmp, waiting]
  | some args =>
    obtain ⟨payload, payloadLen⟩ := args
    rw [icmpRx_waiting done waiting, icmp]
    simp

/-! ## Runs -/

theorem Pinging.Recorded.step (recorded : t.Recorded) (done : t.step call = some (r, t')) : t'.Recorded := by
  cases call with
  | ping ip =>
    simp only [Pinging.step, Option.bind_eq_bind, Option.bind_eq_some_iff] at done
    obtain ⟨⟨frames, n⟩, sent, same⟩ := done
    cases same
    intro _
    simp only [icmpPing_icmp sent]
  | getStatus =>
    cases done
    exact recorded
  | resetStatus =>
    cases done
    intro waiting
    cases waiting
  | receive pkt len =>
    simp only [Pinging.step, Option.bind_eq_bind, Option.bind_eq_some_iff] at done
    obtain ⟨n, received, same⟩ := done
    cases same
    rcases ipRx_keeps received with rfl | rfl
    · exact recorded
    · intro waiting
      cases waiting
  | other n =>
    cases done
    exact recorded

theorem ownReply_iff (recorded : t.Recorded) (done : t.step call = some (r, t')) :
    OwnReply t call ↔ Numbered t call := by
  cases call with
  | receive pkt len =>
    have ran := done
    simp only [Pinging.step, Option.bind_eq_bind, Option.bind_eq_some_iff] at ran
    obtain ⟨n, received, same⟩ := ran
    cases same
    constructor
    · intro own waiting payload payloadLen icmp enough type
      have ended := (ipRx_waiting received waiting).mpr ⟨payload, payloadLen, icmp, enough, type⟩
      obtain ⟨payload', payloadLen', request, icmp', last, -, sameId, sameSeq⟩ :=
        own pkt len _ _ rfl done waiting ended
      rw [icmp] at icmp'
      cases icmp'
      rw [recorded waiting] at last
      cases last
      rw [sameId, sameSeq]
      exact ⟨icmpRequest_id, icmpRequest_seq⟩
    · intro numbered pkt' len' r' t' same done' waiting ended
      cases same
      rw [done] at done'
      cases done'
      obtain ⟨payload, payloadLen, icmp, enough, type⟩ := (ipRx_waiting received waiting).mp ended
      obtain ⟨sameId, sameSeq⟩ := numbered waiting payload payloadLen icmp enough type
      refine ⟨payload, payloadLen, _, icmp, recorded waiting, type, ?_, ?_⟩
      · rw [sameId, icmpRequest_id]
      · rw [sameSeq, icmpRequest_seq]
  | ping | getStatus | resetStatus | other =>
    refine iff_of_true (fun pkt len r t' same => ?_) trivial
    cases same

/-- **A ping is answered by its own reply exactly in the runs** in which every echo reply that
comes while a ping is waiting has the number of the last request. -/
theorem pings_answered_iff (mac : Mac) (ip ticks : UInt32) :
    Run Pinging.step OwnReply ⟨netBoot mac ip ticks, none⟩ calls t ↔
      Run Pinging.step Numbered ⟨netBoot mac ip ticks, none⟩ calls t := by
  refine Run.allowed_iff Pinging.Recorded ?_ ?_ ?_
  · intro t call r t' recorded done
    exact recorded.step done
  · intro t call r t' recorded done
    exact ownReply_iff recorded done
  · intro waiting
    cases waiting

/-! ## A late reply -/

/-- An echo reply in a datagram from host 2 to host 1. -/
def echoReply (id seq : UInt16) : List UInt8 :=
  ipDatagram 2 1 1 ([0, 0] ++ (le16 0 ++ (le16 id ++ le16 seq)))

/-- Host 2 is pinged twice, and then the reply to the first request comes. -/
theorem late_reply_accepted :
    ∃ calls t, Run Pinging.step (fun _ _ => True) ⟨netBoot zeroMac 1 0, none⟩ calls t ∧
      t.request = some (icmpRequest 1 2) ∧
      ∃ t', t.step (.receive (echoReply 1 1) 28) = some (0, t') ∧ t.stack.icmp.pingWaiting = true ∧
        t'.stack.icmp.pingWaiting = false ∧ ¬ OwnReply t (.receive (echoReply 1 1) 28) := by
  obtain ⟨calls, t, run, request, waiting, seq, returns⟩ := Run.exists_of_replay Pinging.step
    (fun _ _ => True) ⟨netBoot zeroMac 1 0, none⟩ [.ping 2, .ping 2]
    (fun _ t => t.request = some (icmpRequest 1 2) ∧ t.stack.icmp.pingWaiting = true ∧
      t.stack.icmp.pingSeq = 2 ∧ (t.step (.receive (echoReply 1 1) 28)).any fun result =>
        result.1 = 0 && !result.2.stack.icmp.pingWaiting)
    (by decide +kernel)
  cases done : t.step (.receive (echoReply 1 1) 28) with
  | none =>
    rw [done] at returns
    cases returns
  | some result =>
    obtain ⟨r, t'⟩ := result
    simp only [done, Option.any_some, Bool.and_eq_true, decide_eq_true_eq, Bool.not_eq_true'] at returns
    obtain ⟨rfl, ended⟩ := returns
    have recorded : t.Recorded := by
      refine run.invariant Pinging.Recorded (fun t call r t' recorded _ done => recorded.step done) ?_
      intro waiting
      cases waiting
    refine ⟨calls, t, run, request, t', done, waiting, ended, fun own => ?_⟩
    have numbered := (ownReply_iff recorded done).mp own waiting _ 8 rfl (by decide) rfl
    rw [seq] at numbered
    exact absurd numbered.2 (by decide)

end QuantumKernel.Net
