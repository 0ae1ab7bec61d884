import QuantumKernel.Net.ArpTable

/-! # The queue of unresolved packets

What `ip_process_arp_queue`, `arp_add_entry`, `arp_rx` and `ip_tx` do to the queue.  A packet
waits in its slot for an address that has no entry: that is `QueueSound`, and every call keeps
it, since the call that enters an address sends all that waits for it.
-/

namespace QuantumKernel.Net

open SlotArray Packed Transition

/-- The slots that wait for an address, in order. -/
def Stack.waiting (n : Stack) (ip : UInt32) : List (Fin 8) := slotsWith fun i => (n.arpQueue i).waitsFor ip

/-- The slots in use. -/
def Stack.pending (n : Stack) : List (Fin 8) := slotsWith fun i => (n.arpQueue i).valid

/-- All that waited for an address has been sent. -/
def Stack.release (n : Stack) (ip : UInt32) : Stack := { n with
  arpQueue := fun i =>
    if (n.arpQueue i).waitsFor ip then { n.arpQueue i with valid := false } else n.arpQueue i
  arpPending := n.arpPending - Int32.ofNat (n.waiting ip).length }

/-- The frames in which it is sent. -/
def Stack.released (n : Stack) (ip : UInt32) (mac : Mac) : List Frame :=
  (n.waiting ip).map fun i => queuedFrame n mac (n.arpQueue i)

/-- Packets wait for addresses without an entry, and `arp_pending` counts them. -/
structure QueueSound (n : Stack) : Prop where
  unresolved : ∀ i, (n.arpQueue i).valid = true → arpLookup n (n.arpQueue i).dst = none
  counted : n.arpPending = Int32.ofNat n.pending.length

variable {n n' : Stack} {ip other dst : UInt32} {mac : Mac} {i j : Fin 8} {p : QueuedPacket}
  {proto : UInt8} {payload pkt : List UInt8} {frames : List Frame} {result : Int32}

theorem QueuedPacket.waitsFor_iff : p.waitsFor ip = true ↔ p.valid = true ∧ p.dst = ip := by
  rw [waitsFor, Bool.and_eq_true, beq_iff_eq]

theorem mem_waiting : i ∈ n.waiting ip ↔ (n.arpQueue i).valid = true ∧ (n.arpQueue i).dst = ip := by
  rw [Stack.waiting, mem_slotsWith, QueuedPacket.waitsFor_iff]

/-! ## `ip_process_arp_queue` -/

/-- The loop over distinct slots sends those that wait, one after another. -/
theorem processSlots_eq (mac : Mac) (ip : UInt32) (slots : List (Fin 8)) (nodup : slots.Nodup)
    (sent : List Frame) (n : Stack) :
    slots.foldl (processSlot mac ip) (sent, n) =
      (sent ++ (slots.filter fun i => (n.arpQueue i).waitsFor ip).map fun i => queuedFrame n mac (n.arpQueue i),
        { n with
          arpQueue := fun i => if i ∈ slots ∧ (n.arpQueue i).waitsFor ip = true then
            { n.arpQueue i with valid := false } else n.arpQueue i
          arpPending := n.arpPending -
            Int32.ofNat (slots.filter fun i => (n.arpQueue i).waitsFor ip).length }) := by
  induction slots generalizing sent n with
  | nil => simp
  | cons i rest ih =>
    obtain ⟨fresh, nodup⟩ := List.nodup_cons.mp nodup
    rw [List.foldl_cons]
    by_cases waits : (n.arpQueue i).waitsFor ip = true
    · rw [processSlot, if_pos waits, ih nodup]
      -- The slots of `rest` are as they were before slot `i` was sent.
      have same (j : Fin 8) (member : j ∈ rest) :
          Function.update n.arpQueue i { n.arpQueue i with valid := false } j = n.arpQueue j :=
        Function.update_of_ne (fun here : j = i => fresh (here ▸ member)) _ _
      have filtered : (rest.filter fun j =>
          (Function.update n.arpQueue i { n.arpQueue i with valid := false } j).waitsFor ip) =
            rest.filter fun j => (n.arpQueue j).waitsFor ip :=
        List.filter_congr fun j member => by rw [same j member]
      have one : n.arpPending - 1 - Int32.ofNat (rest.filter fun j => (n.arpQueue j).waitsFor ip).length =
          n.arpPending - Int32.ofNat ((rest.filter fun j => (n.arpQueue j).waitsFor ip).length + 1) := by
        rw [Int32.ofNat_add]
        grind
      simp only [List.filter_cons, waits, if_true, List.map_cons, List.length_cons, filtered, one]
      congr 1
      · rw [List.append_assoc, List.singleton_append]
        congr 2
        refine List.map_congr_left fun j member => ?_
        rw [same j (List.mem_of_mem_filter member)]
        rfl
      · congr 1
        funext j
        by_cases here : j = i
        · subst here
          simp [fresh, waits]
        · simp [here]
    · rw [processSlot, if_neg waits, ih nodup]
      have dropped : ((i :: rest).filter fun j => (n.arpQueue j).waitsFor ip) =
          rest.filter fun j => (n.arpQueue j).waitsFor ip := List.filter_cons_of_neg waits
      rw [dropped]
      congr 2
      funext j
      by_cases here : j = i
      · subst here
        simp [fresh, waits]
      · simp [here]

/-- With an entry for the address, everything that waits for it is sent. -/
theorem ipProcessArpQueue_eq (found : arpLookup n ip = some mac) :
    ipProcessArpQueue n ip = (n.released ip mac, n.release ip) := by
  rw [ipProcessArpQueue, found]
  show (List.finRange 8).foldl (processSlot mac ip) ([], n) = _
  rw [processSlots_eq mac ip _ (List.nodup_finRange 8)]
  simp only [List.nil_append, List.mem_finRange, true_and]
  rfl

/-! ## `arp_add_entry` -/

/-- A new entry is found, if there was none for its address. -/
theorem arpLookup_putEntry (absent : arpLookup n ip = none) (k : Fin 16) (mac : Mac) :
    arpLookup (n.putEntry k ip mac) ip = some mac := by
  have here : ((n.putEntry k ip mac).arpTable k).isFor ip = true := by
    rw [Stack.putEntry_arpTable, Function.update_self, ArpEntry.isFor_iff]
    exact ⟨rfl, rfl⟩
  cases found : arpLookup (n.putEntry k ip mac) ip with
  | none =>
    rw [arpLookup_eq_none.mp found k] at here
    cases here
  | some other =>
    obtain ⟨l, entry, rfl⟩ := arpLookup_entry found
    by_cases same : l = k
    · rw [same, Stack.putEntry_arpTable, Function.update_self]
    · rw [Stack.putEntry_arpTable, Function.update_of_ne same, arpLookup_eq_none.mp absent l] at entry
      cases entry

/-- No other address gets an entry. -/
theorem arpLookup_putEntry_other (ne : other ≠ ip) (absent : arpLookup n other = none) (k : Fin 16)
    (mac : Mac) : arpLookup (n.putEntry k ip mac) other = none := by
  rw [arpLookup_eq_none] at absent ⊢
  intro l
  by_cases same : l = k
  · refine Bool.eq_false_iff.mpr fun entry => ne ?_
    rw [same, Stack.putEntry_arpTable, Function.update_self, ArpEntry.isFor_iff] at entry
    exact entry.2.symm
  · rw [Stack.putEntry_arpTable, Function.update_of_ne same]
    exact absent l

/-- An entry is written; if it is a new one, all that waited for it is sent. -/
theorem arpAddEntry_cases (n : Stack) (ip : UInt32) (mac : Mac) :
    arpLookup n ip ≠ none ∧ (∃ k, arpAddEntry n ip mac = ([], n.putEntry k ip mac)) ∨
      arpLookup n ip = none ∧
        ∃ k, arpAddEntry n ip mac = (n.released ip mac, (n.putEntry k ip mac).release ip) := by
  rw [arpAddEntry]
  cases known : findSlot fun k => (n.arpTable k).isFor ip with
  | some k =>
    have entry := findSlot_holds known
    have present : arpLookup n ip ≠ none := by
      rw [arpLookup, known]
      exact Option.some_ne_none _
    rw [ArpEntry.isFor_iff] at entry
    refine Or.inl ⟨present, k, ?_⟩
    simp only [Stack.putEntry, ← entry.1, ← entry.2]
  | none =>
    have absent : arpLookup n ip = none := by
      rw [arpLookup, known]
      rfl
    have sent (k : Fin 16) : ipProcessArpQueue (n.putEntry k ip mac) ip =
        (n.released ip mac, (n.putEntry k ip mac).release ip) :=
      ipProcessArpQueue_eq (arpLookup_putEntry absent k mac)
    cases findSlot fun k => !(n.arpTable k).valid with
    | some k => exact Or.inr ⟨absent, k, sent k⟩
    | none => exact Or.inr ⟨absent, oldestSlot n.arpTable, sent _⟩

/-! ## `arp_rx` -/

/-- The mapping that a packet makes `arp_rx` add. -/
def arpMapping (pkt : List UInt8) : Option (UInt32 × Mac) := do
  let oper ← readWord16 pkt 6
  let spa ← readWord32 pkt 14
  let sha ← readVector 6 pkt 8
  if bswap16 oper = 1 ∨ bswap16 oper = 2 then some (spa, sha) else none

/-- The reply to a request for the own address. -/
def arpReply (n : Stack) (ip : UInt32) (mac : Mac) : Frame :=
  ethTx n mac ethTypeArp (arpPkt 2 n.localMac n.arpIp mac ip).bytes

theorem arpReplies_cases {replies : List Frame} (answered : arpReplies n pkt = some replies)
    (readSpa : readWord32 pkt 14 = some ip) (readSha : readVector 6 pkt 8 = some mac) :
    replies = [] ∨ replies = [arpReply n ip mac] := by
  simp only [arpReplies, Option.bind_eq_bind, Option.bind_eq_some_iff, readSpa, readSha] at answered
  obtain ⟨tpa, -, answered⟩ := answered
  split at answered
  · cases answered
    exact Or.inr rfl
  · cases answered
    exact Or.inl rfl

/-- A packet adds its mapping, and a request for the own address is answered before. -/
theorem arpRx_cases (done : arpRx n pkt = some (frames, n')) :
    (∃ ip mac replies, arpMapping pkt = some (ip, mac) ∧ (replies = [] ∨ replies = [arpReply n ip mac]) ∧
      frames = replies ++ (arpAddEntry n ip mac).1 ∧ n' = (arpAddEntry n ip mac).2) ∨
    (arpMapping pkt = none ∧ frames = [] ∧ n' = n) := by
  simp only [arpRx, Option.bind_eq_bind, Option.bind_eq_some_iff] at done
  obtain ⟨oper, readOper, done⟩ := done
  have mapped (ip : UInt32) (mac : Mac) (readSpa : readWord32 pkt 14 = some ip)
      (readSha : readVector 6 pkt 8 = some mac) : arpMapping pkt =
        if bswap16 oper = 1 ∨ bswap16 oper = 2 then some (ip, mac) else none := by
    simp only [arpMapping, Option.bind_eq_bind, readOper, readSpa, readSha, Option.bind_some]
  by_cases request : bswap16 oper = 1
  · rw [if_pos request] at done
    simp only [Option.bind_eq_some_iff] at done
    obtain ⟨replies, answered, spa, readSpa, sha, readSha, same⟩ := done
    rw [Option.some.injEq, Prod.mk.injEq] at same
    refine Or.inl ⟨spa, sha, replies, ?_, arpReplies_cases answered readSpa readSha, same.1.symm, same.2.symm⟩
    rw [mapped spa sha readSpa readSha, if_pos (Or.inl request)]
  · rw [if_neg request] at done
    by_cases reply : bswap16 oper = 2
    · rw [if_pos reply] at done
      simp only [Option.bind_eq_some_iff] at done
      obtain ⟨spa, readSpa, sha, readSha, same⟩ := done
      rw [Option.some.injEq] at same
      refine Or.inl ⟨spa, sha, [], ?_, Or.inl rfl, by rw [same]; rfl, by rw [same]⟩
      rw [mapped spa sha readSpa readSha, if_pos (Or.inr reply)]
    · rw [if_neg reply] at done
      cases done
      have other : ¬ (bswap16 oper = 1 ∨ bswap16 oper = 2) := not_or.mpr ⟨request, reply⟩
      have nothing : arpMapping pkt = none := by
        simp only [arpMapping, Option.bind_eq_bind, readOper, Option.bind_some, if_neg other,
          Option.bind_fun_none]
      exact Or.inr ⟨nothing, rfl, rfl⟩

/-! ## `ip_tx` -/

/-- A packet is put into a slot. -/
def Stack.enqueue (n : Stack) (i : Fin 8) (dst : UInt32) (proto : UInt8) (payload : List UInt8) : Stack :=
  { n with
    arpQueue := Function.update n.arpQueue i ⟨dst, proto, payload, n.ticks, true⟩
    arpPending := n.arpPending + 1 }

/-- With a payload that fits into a slot, the call returns. -/
theorem ipTx_returns (n : Stack) (dst : UInt32) (proto : UInt8) (small : payload.length ≤ 1400) :
    ∃ result frames n', ipTx n dst proto payload = some (result, frames, n') := by
  rw [ipTx, if_neg (show ¬ 1480 < payload.length by omega)]
  cases arpLookup n dst with
  | some mac => exact ⟨_, _, _, rfl⟩
  | none =>
    cases findSlot fun i => !(n.arpQueue i).valid with
    | none => exact ⟨_, _, _, rfl⟩
    | some i =>
      show ∃ result frames n', (if 1400 < payload.length then none else _) = some (result, frames, n')
      rw [if_neg (not_lt.mpr small)]
      exact ⟨_, _, _, rfl⟩

/-! ## The invariant -/

/-- The payload of every `ip_tx` fits into a slot. -/
def Sized (_ : Stack) : NetCall → Prop
  | .ipTx _ _ payload => payload.length ≤ 1400
  | _ => True

instance decidableSized (n : Stack) : (call : NetCall) → Decidable (Sized n call)
  | .ipTx _ _ payload => inferInstanceAs (Decidable (payload.length ≤ 1400))
  | .arpRequest _ => .isTrue trivial
  | .arpRx _ => .isTrue trivial
  | .arpAddEntry _ _ => .isTrue trivial
  | .tick => .isTrue trivial

theorem QueueSound.boot (mac : Mac) (ip ticks : UInt32) : QueueSound (netBoot mac ip ticks) := by
  have none (i : Fin 8) : ((netBoot mac ip ticks).arpQueue i).valid = false := rfl
  constructor
  · intro i valid
    rw [none i] at valid
    cases valid
  · have empty : (netBoot mac ip ticks).pending = [] := slotsWith_eq_nil.mpr none
    rw [empty]
    rfl

/-- A new entry changes neither the queue nor what it waits for. -/
theorem QueueSound.putEntry (sound : QueueSound n) (present : arpLookup n ip ≠ none) (k : Fin 16) (mac : Mac) :
    QueueSound (n.putEntry k ip mac) := by
  refine ⟨fun i valid => ?_, sound.counted⟩
  have absent := sound.unresolved i valid
  have ne : (n.arpQueue i).dst ≠ ip := fun same => present (same ▸ absent)
  exact arpLookup_putEntry_other ne absent k mac

/-- The slots in use after a release. -/
theorem pending_release (n : Stack) (ip : UInt32) :
    (n.release ip).pending = slotsWith fun i => (n.arpQueue i).valid && !((n.arpQueue i).dst == ip) := by
  refine slotsWith_congr fun i => ?_
  simp only [Stack.release]
  by_cases waits : (n.arpQueue i).waitsFor ip = true
  · rw [if_pos waits]
    simp only [QueuedPacket.waitsFor, Bool.and_eq_true] at waits
    rw [waits.1, waits.2]
    rfl
  · rw [if_neg waits]
    simp only [QueuedPacket.waitsFor, Bool.not_eq_true] at waits
    cases valid : (n.arpQueue i).valid with
    | false => rfl
    | true =>
      rw [valid, Bool.true_and] at waits
      rw [waits]
      rfl

/-- What waited for a new entry is not left in the queue. -/
theorem QueueSound.release (sound : QueueSound n) (k : Fin 16) (ip : UInt32) (mac : Mac) :
    QueueSound ((n.putEntry k ip mac).release ip) := by
  constructor
  · intro i valid
    show arpLookup (n.putEntry k ip mac) _ = none
    by_cases waits : (n.arpQueue i).waitsFor ip = true
    · have sent : (((n.putEntry k ip mac).release ip).arpQueue i).valid = false := by
        show (if (n.arpQueue i).waitsFor ip then _ else _ : QueuedPacket).valid = false
        rw [if_pos waits]
      rw [sent] at valid
      cases valid
    · have kept : ((n.putEntry k ip mac).release ip).arpQueue i = n.arpQueue i := if_neg waits
      rw [kept] at valid ⊢
      have ne : (n.arpQueue i).dst ≠ ip := fun same => waits (QueuedPacket.waitsFor_iff.mpr ⟨valid, same⟩)
      exact arpLookup_putEntry_other ne (sound.unresolved i valid) k mac
  · have split := length_slotsWith_split (fun i => (n.arpQueue i).valid) fun i => (n.arpQueue i).dst == ip
    have counted := sound.counted
    rw [pending_release]
    show n.arpPending - Int32.ofNat (n.waiting ip).length = _
    rw [counted, Stack.pending, split, Int32.ofNat_add]
    simp only [Stack.waiting, QueuedPacket.waitsFor, Stack.putEntry]
    grind

/-- The slots in use after a packet is put into a free one. -/
theorem pending_enqueue (dst : UInt32) (proto : UInt8) (payload : List UInt8) :
    (n.enqueue i dst proto payload).pending = slotsWith (mark (fun j => (n.arpQueue j).valid) i) := by
  refine slotsWith_congr fun j => ?_
  simp only [Stack.enqueue, mark]
  by_cases here : j = i
  · rw [here, Function.update_self, if_pos rfl]
  · rw [Function.update_of_ne here, if_neg here]

theorem QueueSound.enqueue (sound : QueueSound n) (absent : arpLookup n dst = none)
    (free : (n.arpQueue i).valid = false) : QueueSound (n.enqueue i dst proto payload) := by
  constructor
  · intro j
    show ((Function.update n.arpQueue i _) j).valid = true →
      arpLookup n ((Function.update n.arpQueue i _) j).dst = none
    by_cases here : j = i
    · rw [here, Function.update_self]
      exact fun _ => absent
    · rw [Function.update_of_ne here]
      exact sound.unresolved j
  · rw [pending_enqueue, length_slotsWith_mark free, Int32.ofNat_add]
    show n.arpPending + 1 = _
    rw [sound.counted]
    rfl

/-! ## One call -/

/-- The mapping that a call brings. -/
def NetCall.mapping : NetCall → Option (UInt32 × Mac)
  | .arpAddEntry ip mac => some (ip, mac)
  | .arpRx pkt => arpMapping pkt
  | _ => none

/-- What a call can do to the table and the queue, and what it sends. -/
inductive Effect (n : Stack) : NetCall → NetReply → Stack → Prop
  | sent (dst : UInt32) (proto : UInt8) (payload : List UInt8) (mac : Mac) : arpLookup n dst = some mac →
      Effect n (.ipTx dst proto payload)
        ⟨1, [ethTx n mac ethTypeIp (ipDatagram n.ipIp dst proto payload)]⟩ n
  | dropped (dst : UInt32) (proto : UInt8) (payload : List UInt8) :
      arpLookup n dst = none → (∀ j, (n.arpQueue j).valid = true) →
      Effect n (.ipTx dst proto payload) ⟨-1, []⟩ n
  | queued (dst : UInt32) (proto : UInt8) (payload : List UInt8) (i : Fin 8) :
      arpLookup n dst = none → (n.arpQueue i).valid = false → (∀ j < i, (n.arpQueue j).valid = true) →
      Effect n (.ipTx dst proto payload) ⟨0, [arpRequest n dst]⟩ (n.enqueue i dst proto payload)
  /-- A new mapping releases what waited for it. -/
  | learned (call : NetCall) (ip : UInt32) (mac : Mac) (k : Fin 16) (replies : List Frame) :
      call.mapping = some (ip, mac) → arpLookup n ip = none →
      (replies = [] ∨ replies = [arpReply n ip mac]) →
      Effect n call ⟨0, replies ++ n.released ip mac⟩ ((n.putEntry k ip mac).release ip)
  /-- A mapping for an address that has one. -/
  | refreshed (call : NetCall) (ip : UInt32) (mac : Mac) (k : Fin 16) (replies : List Frame) :
      call.mapping = some (ip, mac) → arpLookup n ip ≠ none →
      (replies = [] ∨ replies = [arpReply n ip mac]) →
      Effect n call ⟨0, replies⟩ (n.putEntry k ip mac)
  | requested (ip : UInt32) : Effect n (.arpRequest ip) ⟨0, [arpRequest n ip]⟩ n
  | ignored (pkt : List UInt8) : arpMapping pkt = none → Effect n (.arpRx pkt) ⟨0, []⟩ n
  | ticked : Effect n .tick ⟨0, []⟩ { n with ticks := n.ticks + 1 }

/-- A mapping is added after the replies. -/
theorem Effect.add {call : NetCall} {replies : List Frame} (mapping : call.mapping = some (ip, mac))
    (answered : replies = [] ∨ replies = [arpReply n ip mac]) :
    Effect n call ⟨0, replies ++ (arpAddEntry n ip mac).1⟩ (arpAddEntry n ip mac).2 := by
  cases arpAddEntry_cases n ip mac with
  | inl known =>
    obtain ⟨present, k, same⟩ := known
    rw [same, List.append_nil]
    exact .refreshed call ip mac k replies mapping present answered
  | inr new =>
    obtain ⟨absent, k, same⟩ := new
    rw [same]
    exact .learned call ip mac k replies mapping absent answered

/-- A packet is sent, put into the first free slot, or dropped if there is none. -/
theorem ipTx_effect (sent : ipTx n dst proto payload = some (result, frames, n')) :
    Effect n (.ipTx dst proto payload) ⟨result, frames⟩ n' := by
  rw [ipTx] at sent
  split at sent
  · cases sent
  · cases found : arpLookup n dst with
    | some mac =>
      rw [found] at sent
      cases sent
      exact .sent dst proto payload mac found
    | none =>
      rw [found] at sent
      cases free : findSlot fun i => !(n.arpQueue i).valid with
      | none =>
        rw [free] at sent
        cases sent
        rw [findSlot_eq_none] at free
        exact .dropped dst proto payload found fun j => (Bool.not_eq_false' ..).mp (free j)
      | some i =>
        have unused := findSlot_holds free
        have first (j : Fin 8) (before : j < i) := findSlot_first free before
        simp only [Bool.not_eq_true', Bool.not_eq_false'] at unused first
        rw [free] at sent
        replace sent : (if 1400 < payload.length then none
          else some (0, [arpRequest n dst], n.enqueue i dst proto payload)) = some (result, frames, n') := sent
        split at sent
        · cases sent
        · cases sent
          exact .queued dst proto payload i found unused first

theorem Stack.step_effect {call : NetCall} {reply : NetReply} (done : n.step call = some (reply, n')) :
    Effect n call reply n' := by
  cases call with
  | ipTx dst proto payload =>
    simp only [Stack.step, Option.bind_eq_bind, Option.bind_eq_some_iff] at done
    obtain ⟨⟨result, frames, m⟩, sent, same⟩ := done
    cases same
    exact ipTx_effect sent
  | arpRequest ip =>
    cases done
    exact .requested ip
  | arpRx pkt =>
    simp only [Stack.step, Option.bind_eq_bind, Option.bind_eq_some_iff] at done
    obtain ⟨⟨frames, m⟩, received, same⟩ := done
    cases same
    rcases arpRx_cases received with ⟨ip, mac, replies, mapping, answered, rfl, rfl⟩ | ⟨ignored, rfl, rfl⟩
    · exact .add mapping answered
    · exact .ignored pkt ignored
  | arpAddEntry ip mac =>
    cases done
    have silent : ([] : List Frame) = [] ∨ [] = [arpReply n ip mac] := Or.inl rfl
    exact .add rfl silent
  | tick =>
    cases done
    exact .ticked

/-- Every call keeps the queue sound. -/
theorem QueueSound.step {call : NetCall} {reply : NetReply} (sound : QueueSound n)
    (effect : Effect n call reply n') : QueueSound n' := by
  cases effect with
  | sent => exact sound
  | dropped => exact sound
  | queued dst proto payload i absent free => exact sound.enqueue absent free
  | learned _ ip mac k replies => exact sound.release k ip mac
  | refreshed _ ip mac k replies _ present => exact sound.putEntry present k mac
  | requested => exact sound
  | ignored => exact sound
  | ticked => exact ⟨sound.unresolved, sound.counted⟩

theorem QueueSound.run {allowed : Stack → NetCall → Prop} {calls : List (NetCall × NetReply)}
    (run : Run Stack.step allowed n calls n') (sound : QueueSound n) : QueueSound n' :=
  run.invariant QueueSound (fun _ _ _ _ sound _ done => sound.step (Stack.step_effect done)) sound

end QuantumKernel.Net
