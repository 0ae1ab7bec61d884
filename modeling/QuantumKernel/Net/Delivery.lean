import QuantumKernel.Net.Queue

/-! # Every packet leaves once

For one destination, what is queued together with what `ip_tx` accepts is what leaves
together with what is still queued (`Effect.balance`): one call either keeps this as an
equality of lists or puts a packet into a slot.  Along a run it says that nothing is lost and
nothing leaves twice, and while a packet waits nothing leaves for its destination at all.
-/

namespace QuantumKernel.Net

open SlotArray Packed Transition

/-- The datagram in a frame, if it is an IP frame for this destination. -/
def datagramTo (dst : UInt32) (f : Frame) : Option (List UInt8) :=
  if readWord16 f 12 = some (bswap16 ethTypeIp) ∧ readWord32 f 30 = some dst then some (f.drop 14) else none

/-- What left for a destination. -/
def sentTo (dst : UInt32) (calls : List (NetCall × NetReply)) : List (List UInt8) :=
  calls.flatMap fun call => call.2.frames.filterMap (datagramTo dst)

/-- The datagram that a call of `ip_tx` accepted. -/
def NetCall.acceptedTo (src dst : UInt32) (call : NetCall) (reply : NetReply) : List (List UInt8) :=
  match call with
  | .ipTx d proto payload =>
    if d = dst ∧ reply.result ≠ -1 then [ipDatagram src d proto payload] else []
  | _ => []

/-- What `ip_tx` accepted for a destination, in order. -/
def acceptedTo (src dst : UInt32) (calls : List (NetCall × NetReply)) : List (List UInt8) :=
  calls.flatMap fun call => call.1.acceptedTo src dst call.2

/-- What waits for a destination, in the order of the slots. -/
def Stack.queuedTo (n : Stack) (dst : UInt32) : List (List UInt8) :=
  (n.waiting dst).map fun i =>
    ipDatagram n.ipIp (n.arpQueue i).dst (n.arpQueue i).proto (n.arpQueue i).payload

variable {n n' m m' : Stack} {dst ip d : UInt32} {mac : Mac} {i : Fin 8} {proto : UInt8}
  {payload : List UInt8} {replies : List Frame} {call : NetCall} {reply : NetReply}
  {calls : List (NetCall × NetReply)}

theorem acceptedTo_cons (src dst : UInt32) (call : NetCall) (reply : NetReply)
    (rest : List (NetCall × NetReply)) :
    acceptedTo src dst ((call, reply) :: rest) = call.acceptedTo src dst reply ++ acceptedTo src dst rest :=
  List.flatMap_cons

theorem sentTo_cons (dst : UInt32) (call : NetCall) (reply : NetReply) (rest : List (NetCall × NetReply)) :
    sentTo dst ((call, reply) :: rest) = reply.frames.filterMap (datagramTo dst) ++ sentTo dst rest :=
  List.flatMap_cons

/-! ## Frames -/

theorem datagramTo_ip (localMac mac : Mac) (src d : UInt32) (proto : UInt8) (payload : List UInt8) :
    datagramTo dst (ethFrame localMac mac ethTypeIp (ipDatagram src d proto payload)) =
      if d = dst then some (ipDatagram src d proto payload) else none := by
  have target : readWord32 (ethFrame localMac mac ethTypeIp (ipDatagram src d proto payload)) 30 = some d :=
    (ethFrame_word32 16).trans ipDatagram_read_dst
  rw [datagramTo, ethFrame_type, target, ethFrame_drop]
  simp

theorem datagramTo_arp (localMac mac : Mac) (payload : List UInt8) :
    datagramTo dst (ethFrame localMac mac ethTypeArp payload) = none := by
  rw [datagramTo, ethFrame_type]
  exact if_neg fun both => absurd both.1 (by decide)

/-- Replies are no IP frames. -/
theorem filterMap_replies (answered : replies = [] ∨ replies = [arpReply n ip mac]) :
    replies.filterMap (datagramTo dst) = [] := by
  cases answered with
  | inl nothing => rw [nothing, List.filterMap_nil]
  | inr one =>
    rw [one]
    exact List.filterMap_cons_none (datagramTo_arp _ _ _)

theorem filterMap_request : [arpRequest n ip].filterMap (datagramTo dst) = [] :=
  List.filterMap_cons_none (datagramTo_arp _ _ _)

/-- A release sends what waited for the address, and nothing for another one. -/
theorem filterMap_released (n : Stack) (ip : UInt32) (mac : Mac) :
    (n.released ip mac).filterMap (datagramTo dst) = if ip = dst then n.queuedTo dst else [] := by
  rw [Stack.released, List.filterMap_map]
  have each (i : Fin 8) (waits : i ∈ n.waiting ip) :
      (datagramTo dst ∘ fun i => queuedFrame n mac (n.arpQueue i)) i = if ip = dst then
        some (ipDatagram n.ipIp (n.arpQueue i).dst (n.arpQueue i).proto (n.arpQueue i).payload) else none := by
    refine (datagramTo_ip ..).trans ?_
    rw [(mem_waiting.mp waits).2]
  rw [List.filterMap_congr each]
  by_cases same : ip = dst
  · subst same
    simp only [if_true]
    exact congrFun List.filterMap_eq_map _
  · simp [same]

/-! ## The queue -/

/-- Nothing waits for an address that has an entry. -/
theorem QueueSound.queuedTo_nil (sound : QueueSound n) (present : arpLookup n dst ≠ none) :
    n.queuedTo dst = [] := by
  have empty : n.waiting dst = [] := by
    refine slotsWith_eq_nil.mpr fun i => Bool.eq_false_iff.mpr fun waits => present ?_
    obtain ⟨valid, same⟩ := QueuedPacket.waitsFor_iff.mp waits
    exact same ▸ sound.unresolved i valid
  rw [Stack.queuedTo, empty, List.map_nil]

/-- After a release nothing waits for the address, and as much as before for the others. -/
theorem queuedTo_release (n : Stack) (k : Fin 16) (ip : UInt32) (mac : Mac) :
    ((n.putEntry k ip mac).release ip).queuedTo dst = if ip = dst then [] else n.queuedTo dst := by
  have waits (i : Fin 8) : (((n.putEntry k ip mac).release ip).arpQueue i).waitsFor dst =
      ((n.arpQueue i).waitsFor dst && !(ip == dst)) := by
    show (if (n.arpQueue i).waitsFor ip then _ else _ : QueuedPacket).waitsFor dst = _
    by_cases here : (n.arpQueue i).waitsFor ip = true
    · rw [if_pos here]
      obtain ⟨valid, rfl⟩ := QueuedPacket.waitsFor_iff.mp here
      simp [QueuedPacket.waitsFor]
    · rw [if_neg here]
      show (n.arpQueue i).waitsFor dst = _
      by_cases same : ip = dst
      · rw [← same, Bool.eq_false_iff.mpr here, Bool.false_and]
      · rw [beq_false_of_ne same, Bool.not_false, Bool.and_true]
  by_cases same : ip = dst
  · rw [if_pos same, Stack.queuedTo]
    have empty : ((n.putEntry k ip mac).release ip).waiting dst = [] := by
      refine slotsWith_eq_nil.mpr fun i => ?_
      rw [waits, same]
      simp
    rw [empty, List.map_nil]
  · rw [if_neg same, Stack.queuedTo, Stack.queuedTo]
    have slots : ((n.putEntry k ip mac).release ip).waiting dst = n.waiting dst := by
      refine slotsWith_congr fun i => ?_
      rw [waits, beq_false_of_ne same, Bool.not_false, Bool.and_true]
    rw [slots]
    refine List.map_congr_left fun i member => ?_
    have other : (n.arpQueue i).waitsFor ip = false := by
      refine Bool.eq_false_iff.mpr fun here => same ?_
      exact (QueuedPacket.waitsFor_iff.mp here).2.symm.trans (mem_waiting.mp member).2
    have kept : ((n.putEntry k ip mac).release ip).arpQueue i = n.arpQueue i :=
      if_neg (Bool.eq_false_iff.mp other)
    rw [kept]
    rfl

/-- The slots that wait for an address after a packet is put into a free one. -/
theorem waiting_enqueue (d : UInt32) (proto : UInt8) (payload : List UInt8) (free : (n.arpQueue i).valid = false) :
    (n.enqueue i d proto payload).waiting dst =
      if d = dst then slotsWith (mark (fun j => (n.arpQueue j).waitsFor dst) i) else n.waiting dst := by
  have unused : (n.arpQueue i).waitsFor dst = false := by rw [QueuedPacket.waitsFor, free, Bool.false_and]
  have at_ (j : Fin 8) : ((n.enqueue i d proto payload).arpQueue j).waitsFor dst =
      if j = i then (d == dst) else (n.arpQueue j).waitsFor dst := by
    simp only [Stack.enqueue]
    by_cases here : j = i
    · rw [here, Function.update_self, if_pos rfl]
      rfl
    · rw [Function.update_of_ne here, if_neg here]
  by_cases same : d = dst
  · rw [if_pos same]
    refine slotsWith_congr fun j => ?_
    rw [at_, mark, same, beq_self_eq_true]
  · rw [if_neg same]
    refine slotsWith_congr fun j => ?_
    rw [at_, beq_false_of_ne same]
    by_cases here : j = i
    · rw [if_pos here, here, unused]
    · rw [if_neg here]

/-- The datagrams of listed slots after a packet is put into another one. -/
theorem map_enqueue (slots : List (Fin 8)) (elsewhere : i ∉ slots) (d : UInt32) (proto : UInt8)
    (payload : List UInt8) :
    (slots.map fun j => ipDatagram (n.enqueue i d proto payload).ipIp
      ((n.enqueue i d proto payload).arpQueue j).dst ((n.enqueue i d proto payload).arpQueue j).proto
      ((n.enqueue i d proto payload).arpQueue j).payload) =
    slots.map fun j => ipDatagram n.ipIp (n.arpQueue j).dst (n.arpQueue j).proto (n.arpQueue j).payload := by
  refine List.map_congr_left fun j member => ?_
  have same : (n.enqueue i d proto payload).arpQueue j = n.arpQueue j :=
    Function.update_of_ne (fun here : j = i => elsewhere (here ▸ member)) _ _
  rw [same]
  rfl

theorem not_mem_waiting (free : (n.arpQueue i).valid = false) : i ∉ n.waiting dst := by
  intro member
  rw [mem_waiting, free] at member
  cases member.1

/-- A packet for another destination. -/
theorem queuedTo_enqueue_other (free : (n.arpQueue i).valid = false) (ne : d ≠ dst) :
    (n.enqueue i d proto payload).queuedTo dst = n.queuedTo dst := by
  rw [Stack.queuedTo, waiting_enqueue d proto payload free, if_neg ne]
  exact map_enqueue _ (not_mem_waiting free) d proto payload

/-- The queue with one more packet, wherever it was put. -/
theorem queuedTo_enqueue_perm (free : (n.arpQueue i).valid = false) :
    ((n.enqueue i dst proto payload).queuedTo dst).Perm
      (n.queuedTo dst ++ [ipDatagram n.ipIp dst proto payload]) := by
  have unused : (n.arpQueue i).waitsFor dst = false := by rw [QueuedPacket.waitsFor, free, Bool.false_and]
  rw [Stack.queuedTo, waiting_enqueue dst proto payload free, if_pos rfl]
  refine ((slotsWith_mark_perm unused).map _).trans (List.Perm.of_eq ?_)
  rw [List.map_append]
  refine congrArg₂ (· ++ ·) (map_enqueue _ (not_mem_waiting free) dst proto payload) ?_
  simp [Stack.enqueue]

theorem acceptedTo_mapping {src : UInt32} (mapping : call.mapping = some (ip, mac)) :
    call.acceptedTo src dst reply = [] := by
  cases call with
  | ipTx d proto payload => cases mapping
  | arpRequest ip => rfl
  | arpRx pkt => rfl
  | arpAddEntry ip mac => rfl
  | tick => rfl

/-- What is queued and what is accepted leaves or stays queued, in order, unless the call puts a
packet for the destination into a slot. -/
theorem Effect.balance (sound : QueueSound n) (effect : Effect n call reply n') (dst : UInt32) :
    n.queuedTo dst ++ call.acceptedTo n.ipIp dst reply =
      reply.frames.filterMap (datagramTo dst) ++ n'.queuedTo dst ∨
    ∃ i proto payload, call = .ipTx dst proto payload ∧ reply = ⟨0, [arpRequest n dst]⟩ ∧
      (n.arpQueue i).valid = false ∧ (∀ j < i, (n.arpQueue j).valid = true) ∧
      n' = n.enqueue i dst proto payload := by
  cases effect with
  | sent d proto payload mac found =>
    left
    rw [ethTx, List.filterMap_cons, datagramTo_ip]
    -- nothing is queued for an address with a mapping
    by_cases same : d = dst
    · subst same
      rw [sound.queuedTo_nil (found ▸ Option.some_ne_none mac)]
      simp [NetCall.acceptedTo]
    · simp [NetCall.acceptedTo, same]
  | dropped d proto payload absent full =>
    left
    simp [NetCall.acceptedTo]
  | queued d proto payload i absent free first =>
    by_cases same : d = dst
    · subst same
      exact Or.inr ⟨i, proto, payload, rfl, rfl, free, first, rfl⟩
    · left
      rw [filterMap_request, queuedTo_enqueue_other free same]
      simp [NetCall.acceptedTo, same]
  | learned _ ip mac k replies mapping absent answered =>
    left
    rw [acceptedTo_mapping mapping, List.filterMap_append, filterMap_replies answered, filterMap_released,
      queuedTo_release]
    by_cases same : ip = dst
    · simp [same]
    · simp [same]
  | refreshed _ ip mac k replies mapping present answered =>
    left
    rw [acceptedTo_mapping mapping, filterMap_replies answered, List.append_nil, List.nil_append]
    rfl
  | requested ip =>
    left
    rw [filterMap_request]
    exact List.append_nil _
  | ignored pkt none => exact Or.inl (List.append_nil _)
  | ticked => exact Or.inl (List.append_nil _)

/-- Whatever slot a packet is put into, none is lost and none leaves twice. -/
theorem Effect.balance_perm (sound : QueueSound n) (effect : Effect n call reply n') (dst : UInt32) :
    (n.queuedTo dst ++ call.acceptedTo n.ipIp dst reply).Perm
      (reply.frames.filterMap (datagramTo dst) ++ n'.queuedTo dst) := by
  cases effect.balance sound dst with
  | inl same => exact List.Perm.of_eq same
  | inr enqueued =>
    obtain ⟨i, proto, payload, rfl, rfl, free, -, rfl⟩ := enqueued
    rw [filterMap_request, List.nil_append]
    have accepted : NetCall.acceptedTo n.ipIp dst (.ipTx dst proto payload) ⟨0, [arpRequest n dst]⟩ =
        [ipDatagram n.ipIp dst proto payload] := if_pos ⟨rfl, show (0 : Int32) ≠ -1 by decide⟩
    rw [accepted]
    exact (queuedTo_enqueue_perm free).symm

theorem Effect.ipIp_eq (effect : Effect n call reply n') : n'.ipIp = n.ipIp := by
  cases effect with
  | sent => rfl
  | dropped => rfl
  | queued => rfl
  | learned => rfl
  | refreshed => rfl
  | requested => rfl
  | ignored => rfl
  | ticked => rfl

/-! ## Runs -/

/-- Along a run nothing is lost and nothing leaves twice. -/
theorem run_balance {allowed : Stack → NetCall → Prop} (run : Run Stack.step allowed n calls n') (sound : QueueSound n) (dst : UInt32) :
    (n.queuedTo dst ++ acceptedTo n.ipIp dst calls).Perm (sentTo dst calls ++ n'.queuedTo dst) := by
  induction run with
  | refl n =>
    rw [acceptedTo, sentTo, List.flatMap_nil, List.flatMap_nil, List.append_nil, List.nil_append]
  | @call n m n' call reply rest _ done run ih =>
    have effect := Stack.step_effect done
    have first := effect.balance_perm sound dst
    have later := ih (sound.step effect)
    rw [effect.ipIp_eq] at later
    rw [acceptedTo_cons, sentTo_cons, ← List.append_assoc, List.append_assoc _ (sentTo dst rest)]
    refine (first.append_right _).trans ?_
    rw [List.append_assoc]
    exact later.append_left _

/-- The call brings a mapping for an address without one. -/
def Learns (n : Stack) (call : NetCall) (dst : UInt32) (mac : Mac) : Prop :=
  arpLookup n dst = none ∧ call.mapping = some (dst, mac)

/-- A sized call that does not bring the mapping. -/
def Quiet (dst : UInt32) (n : Stack) (call : NetCall) : Prop :=
  Sized n call ∧ ∀ mac, ¬ Learns n call dst mac

/-- Until the mapping comes, a packet keeps its slot and nothing leaves for its destination. -/
theorem Effect.quiet (sound : QueueSound n) (effect : Effect n call reply n')
    (quiet : ∀ mac, ¬ Learns n call dst mac) (waits : (n.arpQueue i).waitsFor dst = true) :
    n'.arpQueue i = n.arpQueue i ∧ reply.frames.filterMap (datagramTo dst) = [] := by
  obtain ⟨valid, target⟩ := QueuedPacket.waitsFor_iff.mp waits
  have unresolved : arpLookup n dst = none := target ▸ sound.unresolved i valid
  cases effect with
  | sent d proto payload mac found =>
    have ne : d ≠ dst := by
      rintro rfl
      rw [unresolved] at found
      cases found
    refine ⟨rfl, List.filterMap_cons_none ?_⟩
    exact (datagramTo_ip _ _ _ _ _ _).trans (if_neg ne)
  | dropped => exact ⟨rfl, rfl⟩
  | queued d proto payload k absent free =>
    refine ⟨Function.update_of_ne ?_ _ _, filterMap_request⟩
    rintro rfl
    rw [valid] at free
    cases free
  | learned _ ip mac k replies mapping absent answered =>
    have ne : ip ≠ dst := by
      rintro rfl
      exact quiet mac ⟨unresolved, mapping⟩
    constructor
    · exact if_neg fun sent => ne ((QueuedPacket.waitsFor_iff.mp sent).2.symm.trans target)
    · rw [List.filterMap_append, filterMap_replies answered, filterMap_released, if_neg ne]
      rfl
  | refreshed _ ip mac k replies _ _ answered => exact ⟨rfl, filterMap_replies answered⟩
  | requested => exact ⟨rfl, filterMap_request⟩
  | ignored => exact ⟨rfl, rfl⟩
  | ticked => exact ⟨rfl, rfl⟩

/-- When the mapping comes, the call sends what waits, each packet once. -/
theorem Effect.delivers (effect : Effect n call reply n') (learns : Learns n call dst mac)
    (waits : (n.arpQueue i).waitsFor dst = true) :
    (n'.arpQueue i).valid = false ∧ i ∈ n.waiting dst ∧ (n.waiting dst).Nodup ∧
      ∃ replies, replies.filterMap (datagramTo dst) = [] ∧
        reply.frames = replies ++ (n.waiting dst).map fun j => queuedFrame n mac (n.arpQueue j) := by
  obtain ⟨absent, brings⟩ := learns
  cases effect with
  | sent => cases brings
  | dropped => cases brings
  | queued => cases brings
  | learned _ ip mac' k replies mapping _ answered =>
    rw [brings] at mapping
    cases mapping
    refine ⟨?_, mem_slotsWith.mpr waits, slotsWith_nodup _, replies, filterMap_replies answered, rfl⟩
    show (if (n.arpQueue i).waitsFor dst then _ else _ : QueuedPacket).valid = false
    rw [if_pos waits]
  | refreshed _ ip mac' k replies mapping present =>
    rw [brings] at mapping
    cases mapping
    exact absurd absent present
  | requested => cases brings
  | ignored pkt none =>
    have nothing : arpMapping pkt = some (dst, mac) := brings
    rw [none] at nothing
    cases nothing
  | ticked => cases brings

/-- A packet waits through a run without its mapping. -/
theorem waits_through {later : List (NetCall × NetReply)} (run : Run Stack.step (Quiet dst) n later m)
    (sound : QueueSound n) (waits : (n.arpQueue i).waitsFor dst = true) :
    QueueSound m ∧ m.arpQueue i = n.arpQueue i ∧ sentTo dst later = [] := by
  induction run with
  | refl => exact ⟨sound, rfl, rfl⟩
  | @call n m n' call reply rest allowed done run ih =>
    have effect := Stack.step_effect done
    obtain ⟨kept, silent⟩ := effect.quiet sound allowed.2 waits
    obtain ⟨sound', same, nothing⟩ := ih (sound.step effect) (kept ▸ waits)
    refine ⟨sound', same.trans kept, ?_⟩
    rw [sentTo_cons, silent, nothing]
    rfl

/-- What becomes of a packet that is passed to `ip_tx`. -/
def Handled (n : Stack) (dst : UInt32) (proto : UInt8) (payload : List UInt8) (reply : NetReply)
    (n' : Stack) : Prop :=
  (reply.result = 1 ∧ n' = n ∧ ∃ mac, arpLookup n dst = some mac ∧
    reply.frames = [ethTx n mac ethTypeIp (ipDatagram n.ipIp dst proto payload)]) ∨
  (reply.result = -1 ∧ n' = n ∧ reply.frames = []) ∨
  (reply.result = 0 ∧ reply.frames = [arpRequest n dst] ∧
    ∃ i, (n.arpQueue i).valid = false ∧ n' = n.enqueue i dst proto payload ∧
      ∀ later m, Run Stack.step (Quiet dst) n' later m →
        m.arpQueue i = ⟨dst, proto, payload, n.ticks, true⟩ ∧ sentTo dst later = [] ∧
        ∀ call mac reply' m', Learns m call dst mac → m.step call = some (reply', m') →
          (m'.arpQueue i).valid = false ∧ i ∈ m.waiting dst ∧ (m.waiting dst).Nodup ∧
            ∃ replies, replies.filterMap (datagramTo dst) = [] ∧
              reply'.frames = replies ++ (m.waiting dst).map fun j => queuedFrame m mac (m.arpQueue j))

theorem ipTx_handled (sound : QueueSound n) (dst : UInt32) (proto : UInt8) {payload : List UInt8}
    (small : payload.length ≤ 1400) :
    ∃ reply n', n.step (.ipTx dst proto payload) = some (reply, n') ∧ Handled n dst proto payload reply n' := by
  obtain ⟨result, frames, n', sent⟩ := ipTx_returns n dst proto small
  refine ⟨⟨result, frames⟩, n', by rw [Stack.step, sent]; rfl, ?_⟩
  cases ipTx_effect sent with
  | sent _ _ _ mac found => exact Or.inl ⟨rfl, rfl, mac, found, rfl⟩
  | dropped => exact Or.inr (Or.inl ⟨rfl, rfl, rfl⟩)
  | queued _ _ _ i absent free =>
    refine Or.inr (Or.inr ⟨rfl, rfl, i, free, rfl, fun later m run => ?_⟩)
    have slot : (n.enqueue i dst proto payload).arpQueue i = ⟨dst, proto, payload, n.ticks, true⟩ :=
      Function.update_self _ _ _
    have waits : ((n.enqueue i dst proto payload).arpQueue i).waitsFor dst = true := by
      rw [slot, QueuedPacket.waitsFor_iff]
      exact ⟨rfl, rfl⟩
    obtain ⟨-, kept, silent⟩ := waits_through run (sound.enqueue absent free) waits
    refine ⟨kept.trans slot, silent, fun call mac reply' m' learns done => ?_⟩
    exact (Stack.step_effect done).delivers learns (kept.symm ▸ waits)
  | learned _ _ _ _ _ mapping => cases mapping
  | refreshed _ _ _ _ _ mapping => cases mapping

theorem pending_toInt (sound : QueueSound n) : n.arpPending.toInt = n.pending.length := by
  have few : n.pending.length ≤ 8 := length_slotsWith_le _
  rw [sound.counted, Int32.toInt_ofNat_of_lt (by omega)]

theorem netBoot_queuedTo (mac : Mac) (ip ticks dst : UInt32) : (netBoot mac ip ticks).queuedTo dst = [] := by
  have empty : (netBoot mac ip ticks).waiting dst = [] := slotsWith_eq_nil.mpr fun _ => rfl
  rw [Stack.queuedTo, empty, List.map_nil]

/-- In every run from the boot, `arp_queue` holds packets for unresolved destinations and
`arp_pending` counts them; what was accepted for a destination is what left for it and what
waits for it; and every packet passed to `ip_tx` is handled. -/
theorem packets_leave_once (mac : Mac) (ip ticks : UInt32)
    (run : Run Stack.step Sized (netBoot mac ip ticks) calls n) :
    ((∀ i, (n.arpQueue i).valid = true → arpLookup n (n.arpQueue i).dst = none) ∧
      n.arpPending.toInt = n.pending.length) ∧
    (∀ dst, (acceptedTo ip dst calls).Perm (sentTo dst calls ++ n.queuedTo dst)) ∧
    ∀ dst proto payload, payload.length ≤ 1400 →
      ∃ reply n', n.step (.ipTx dst proto payload) = some (reply, n') ∧
        Handled n dst proto payload reply n' := by
  have start := QueueSound.boot mac ip ticks
  have sound := QueueSound.run run start
  refine ⟨⟨sound.unresolved, pending_toInt sound⟩, fun dst => ?_, fun dst proto payload small =>
    ipTx_handled sound dst proto small⟩
  have balance := run_balance run start dst
  rwa [netBoot_queuedTo, List.nil_append] at balance

/-- A packet waits until its address is entered; the next one for this address leaves at once. -/
theorem packets_leave_once_released :
    ∃ calls n, calls.map Prod.fst = [.ipTx 2 1 [8], .ipTx 3 1 [9], .arpAddEntry 2 broadcast] ∧
      Run Stack.step Sized (netBoot zeroMac 1 0) calls n ∧
      ((sentTo 2 calls).length = 1 ∧ n.pending.length = 1) ∧ n.arpPending.toInt = n.pending.length ∧
      (acceptedTo 1 3 calls).Perm (sentTo 3 calls ++ n.queuedTo 3) ∧
      ∃ reply n', n.step (.ipTx 2 1 [7]) = some (reply, n') ∧ Handled n 2 1 [7] reply n' := by
  obtain ⟨calls, n, run, inputs, released⟩ := Run.exists_of_replay_inputs Stack.step Sized (netBoot zeroMac 1 0)
    [.ipTx 2 1 [8], .ipTx 3 1 [9], .arpAddEntry 2 broadcast]
    (fun calls n => (sentTo 2 calls).length = 1 ∧ n.pending.length = 1) (by decide +kernel)
  obtain ⟨⟨-, counted⟩, balance, handled⟩ := packets_leave_once zeroMac 1 0 run
  exact ⟨calls, n, inputs, run, released, counted, balance 3, handled 2 1 [7] (by decide)⟩

end QuantumKernel.Net
