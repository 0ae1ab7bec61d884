import QuantumKernel.Library.RingBuffer
import QuantumKernel.Library.Transition
import QuantumKernel.Net.Rtl8139

/-! # The transmit descriptors

The card owns a descriptor from the write of its TXSTATUS register until it completes it, in
the order of the ring, and reads the buffer in between.  `rtl8139_send` takes the next
descriptor without a look at who owns it; it is free as long as fewer than four are owned.
-/

namespace QuantumKernel.Net

open Transition

/-- The driver, the card and the wire. -/
structure TxRing where
  transmitter : Transmitter
  /-- The descriptors that the card owns, in the order of the ring, with the lengths written. -/
  owned : List (Fin 4 × Nat)
  wire : List Frame

theorem firstDescriptor_lt : 0 < 4 := by decide

/-- After `rtl8139_init`. -/
def TxRing.init (ioBase : UInt32) (txBuffers : Fin 4 → List UInt8) : TxRing :=
  ⟨⟨ioBase, ⟨0, firstDescriptor_lt⟩, txBuffers⟩, [], []⟩

inductive TxAction
  | send (data : List UInt8)
  /-- The card is done with its first descriptor. -/
  | complete

inductive TxReply
  | dropped
  | accepted (descriptor : Fin 4)
  | completed

/-- What the card would send from a descriptor. -/
def TxRing.contents (r : TxRing) (descriptor : Fin 4 × Nat) : Frame :=
  (r.transmitter.txBuffers descriptor.1).take descriptor.2

def TxRing.step (r : TxRing) : TxAction → Option (TxReply × TxRing)
  | .send data =>
    match rtl8139Send r.transmitter data with
    | (none, t) => some (.dropped, { r with transmitter := t })
    | (some (i, status), t) =>
      some (.accepted i, { r with transmitter := t, owned := r.owned ++ [(i, status.toNat)] })
  | .complete =>
    match r.owned with
    | [] => none
    | first :: rest => some (.completed, { r with owned := rest, wire := r.wire ++ [r.contents first] })

/-- What the card still has to send. -/
def TxRing.outstanding (r : TxRing) : List Frame := r.owned.map r.contents

/-- The accepted frames, padded. -/
def acceptedFrames (actions : List (TxAction × TxReply)) : List Frame :=
  actions.filterMap fun action =>
    match action with
    | (.send data, .accepted _) => some (padded data)
    | _ => none

/-- A frame that is not dropped is sent only while fewer than four descriptors are owned. -/
def TxRing.InRoom (r : TxRing) : TxAction → Prop
  | .send data => r.transmitter.ioBase ≠ 0 → data.length ≤ 1792 → r.owned.length < 4
  | .complete => True

instance decidableInRoom (r : TxRing) : (action : TxAction) → Decidable (r.InRoom action)
  | .send data => inferInstanceAs (Decidable (r.transmitter.ioBase ≠ 0 → data.length ≤ 1792 → r.owned.length < 4))
  | .complete => .isTrue trivial

/-- The owned descriptors are those before the next one. -/
structure TxSound (r : TxRing) (start : Nat) : Prop where
  owned : r.owned.map (fun d => d.1.val) = (List.range r.owned.length).map fun k => (start + k) % 4
  next : r.transmitter.tx.val = (start + r.owned.length) % 4

variable {r r' : TxRing} {t t' : Transmitter} {start : Nat} {data : List UInt8} {action : TxAction}
  {reply : TxReply} {actions : List (TxAction × TxReply)} {i : Fin 4} {status : UInt32}

/-! ## `rtl8139_send` -/

theorem length_padded (data : List UInt8) : (padded data).length = max data.length 60 := by
  rw [padded, List.length_append, List.length_replicate]
  omega

theorem nextDescriptor_val (tx : Fin 4) : (nextDescriptor tx).val = (tx.val + 1) % 4 :=
  Nat.and_two_pow_sub_one_eq_mod _ 2

/-- A frame is dropped, or put into the next buffer with its length. -/
theorem rtl8139Send_cases (t : Transmitter) (data : List UInt8) :
    rtl8139Send t data = (none, t) ∨
    t.ioBase ≠ 0 ∧ data.length ≤ 1792 ∧ ∃ status : UInt32, status.toNat = (padded data).length ∧
      rtl8139Send t data = (some (t.tx, status), { t with
        txBuffers := Function.update t.txBuffers t.tx
          (padded data ++ (t.txBuffers t.tx).drop (padded data).length)
        tx := nextDescriptor t.tx }) := by
  rw [rtl8139Send]
  by_cases off : t.ioBase = 0
  · rw [if_pos off]
    exact Or.inl rfl
  · rw [if_neg off]
    by_cases long : 1792 < data.length
    · rw [if_pos long]
      exact Or.inl rfl
    · rw [if_neg long]
      refine Or.inr ⟨off, not_lt.mp long, _, ?_, rfl⟩
      have length := length_padded data
      -- The mask keeps 13 bits.
      rw [UInt32.toNat_and, UInt32.toNat_ofNat_of_lt' (show _ < 4294967296 by omega)]
      exact (Nat.and_two_pow_sub_one_eq_mod _ 13).trans (Nat.mod_eq_of_lt (by omega))

/-- The next descriptor is owned exactly if all four are. -/
theorem TxSound.mem_owned_iff (sound : TxSound r start) :
    r.transmitter.tx ∈ r.owned.map Prod.fst ↔ 4 ≤ r.owned.length := by
  have values : r.transmitter.tx ∈ r.owned.map Prod.fst ↔
      r.transmitter.tx.val ∈ r.owned.map fun d => d.1.val := by
    constructor
    · intro member
      obtain ⟨d, here, same⟩ := List.mem_map.mp member
      exact List.mem_map.mpr ⟨d, here, congrArg Fin.val same⟩
    · intro member
      obtain ⟨d, here, same⟩ := List.mem_map.mp member
      exact List.mem_map.mpr ⟨d, here, Fin.ext same⟩
  rw [values, sound.owned, sound.next, List.mem_map]
  constructor
  · rintro ⟨k, member, same⟩
    have before := List.mem_range.mp member
    by_contra few
    exact RingBuffer.cell_ne (by omega) (by omega) same
  · intro all
    exact ⟨r.owned.length - 4, List.mem_range.mpr (by omega), by omega⟩

/-! ## One step -/

/-- Buffers of owned descriptors are left alone, and the new one has the frame. -/
theorem TxSound.send (sound : TxSound r start) (room : r.InRoom (.send data))
    (done : r.step (.send data) = some (reply, r')) :
    TxSound r' start ∧ r'.wire ++ r'.outstanding =
      r.wire ++ r.outstanding ++ acceptedFrames [(.send data, reply)] := by
  rcases rtl8139Send_cases r.transmitter data with dropped | ⟨on, short, status, length, accepted⟩
  · rw [TxRing.step, dropped] at done
    cases done
    exact ⟨⟨sound.owned, sound.next⟩, (List.append_nil _).symm⟩
  · rw [TxRing.step, accepted] at done
    cases done
    have free : r.transmitter.tx ∉ r.owned.map Prod.fst := by
      rw [sound.mem_owned_iff]
      exact not_le.mpr (room on short)
    have next := sound.next
    refine ⟨⟨?_, ?_⟩, ?_⟩
    · rw [List.length_append, List.map_append, sound.owned]
      show _ ++ [r.transmitter.tx.val] = (List.range (r.owned.length + 1)).map _
      rw [next, List.range_succ, List.map_append]
      rfl
    · rw [List.length_append]
      show (nextDescriptor r.transmitter.tx).val = (start + (r.owned.length + 1)) % 4
      rw [nextDescriptor_val]
      omega
    · rw [List.append_assoc]
      refine congrArg (r.wire ++ ·) ?_
      show List.map _ (r.owned ++ [(r.transmitter.tx, status.toNat)]) = _ ++ [padded data]
      rw [List.map_append]
      refine congrArg₂ (· ++ ·) (List.map_congr_left fun d member => ?_) ?_
      · have other : d.1 ≠ r.transmitter.tx := fun same => free (same ▸ List.mem_map_of_mem member)
        exact congrArg (List.take d.2) (Function.update_of_ne other _ _)
      · rw [List.map_singleton, TxRing.contents]
        simp [length]

theorem TxSound.complete (sound : TxSound r start) (done : r.step .complete = some (reply, r')) :
    TxSound r' (start + 1) ∧ r'.wire ++ r'.outstanding =
      r.wire ++ r.outstanding ++ acceptedFrames [(.complete, reply)] := by
  cases owned : r.owned with
  | nil =>
    rw [TxRing.step, owned] at done
    cases done
  | cons first rest =>
    rw [TxRing.step, owned] at done
    cases done
    have all := sound.owned
    have next := sound.next
    rw [owned, List.length_cons, List.range_succ_eq_map, List.map_cons, List.map_cons, List.map_map] at all
    rw [owned, List.length_cons] at next
    refine ⟨⟨?_, ?_⟩, ?_⟩
    · refine (List.cons.inj all).2.trans (List.map_congr_left fun k _ => ?_)
      show (start + (k + 1)) % 4 = (start + 1 + k) % 4
      omega
    · show r.transmitter.tx.val = (start + 1 + rest.length) % 4
      omega
    · rw [TxRing.outstanding, TxRing.outstanding, owned, List.map_cons]
      show r.wire ++ [r.contents first] ++ rest.map r.contents = r.wire ++ r.contents first :: _ ++ []
      rw [List.append_nil, List.append_assoc]
      rfl

/-! ## Runs -/

theorem TxSound.run (run : Run TxRing.step TxRing.InRoom r actions r') (sound : TxSound r start) :
    (∃ start', TxSound r' start') ∧
      r'.wire ++ r'.outstanding = r.wire ++ r.outstanding ++ acceptedFrames actions := by
  induction run generalizing start with
  | refl => exact ⟨⟨start, sound⟩, (List.append_nil _).symm⟩
  | @call r r₁ r' action reply rest room done run ih =>
    have step : ∃ start₁, TxSound r₁ start₁ ∧
        r₁.wire ++ r₁.outstanding = r.wire ++ r.outstanding ++ acceptedFrames [(action, reply)] := by
      cases action with
      | send data => exact ⟨start, sound.send room done⟩
      | complete => exact ⟨start + 1, sound.complete done⟩
    obtain ⟨start₁, sound₁, first⟩ := step
    obtain ⟨sound', later⟩ := ih sound₁
    have split : acceptedFrames ((action, reply) :: rest) =
        acceptedFrames [(action, reply)] ++ acceptedFrames rest := List.filterMap_append (l := [(action, reply)])
    refine ⟨sound', ?_⟩
    rw [later, first, split, List.append_assoc]

theorem TxSound.init (ioBase : UInt32) (txBuffers : Fin 4 → List UInt8) :
    TxSound (TxRing.init ioBase txBuffers) 0 := ⟨rfl, rfl⟩

/-- If no frame is sent while four descriptors are owned, the accepted frames are on the wire or in
the buffers, each with its own bytes and in order.  A frame is put into a buffer that the card owns
exactly if four are owned. -/
theorem transmit_buffers_free (ioBase : UInt32) (txBuffers : Fin 4 → List UInt8)
    (run : Run TxRing.step TxRing.InRoom (TxRing.init ioBase txBuffers) actions r) :
    r.wire ++ r.outstanding = acceptedFrames actions ∧
      ∀ data i status t, rtl8139Send r.transmitter data = (some (i, status), t) →
        (i ∈ r.owned.map Prod.fst ↔ 4 ≤ r.owned.length) := by
  obtain ⟨⟨start, sound⟩, balance⟩ := TxSound.run run (.init ioBase txBuffers)
  refine ⟨balance, fun data i status t sent => ?_⟩
  rcases rtl8139Send_cases r.transmitter data with dropped | ⟨-, -, status', -, accepted⟩
  · rw [dropped] at sent
    cases sent
  · rw [accepted] at sent
    cases sent
    exact sound.mem_owned_iff

/-- Five frames, with completions in between. -/
theorem transmit_buffers_free_five :
    ∃ actions r, Run TxRing.step TxRing.InRoom (TxRing.init 1 fun _ => []) actions r ∧
      (r.wire.map (List.take 1) = [[1], [2]] ∧ r.owned.map Prod.fst = [2, 3, 0]) ∧
      r.wire ++ r.outstanding = acceptedFrames actions ∧
      ∀ data i status t, rtl8139Send r.transmitter data = (some (i, status), t) →
        (i ∈ r.owned.map Prod.fst ↔ 4 ≤ r.owned.length) := by
  obtain ⟨actions, r, run, five⟩ := Run.exists_of_replay TxRing.step TxRing.InRoom (TxRing.init 1 fun _ => [])
    [.send [1], .send [2], .complete, .send [3], .send [4], .complete, .send [5]]
    (fun _ r => r.wire.map (List.take 1) = [[1], [2]] ∧ r.owned.map Prod.fst = [2, 3, 0]) (by decide +kernel)
  exact ⟨actions, r, run, five, transmit_buffers_free 1 _ run⟩

/-- The fifth frame is put into the buffer of the first, which the card then sends instead. -/
theorem transmit_buffer_reused :
    (∃ actions r, Run TxRing.step (fun _ _ => True) (TxRing.init 1 fun _ => []) actions r ∧
      (rtl8139Send r.transmitter [5]).1.any fun write => (r.owned.map Prod.fst).contains write.1) ∧
    ∃ actions r, Run TxRing.step (fun _ _ => True) (TxRing.init 1 fun _ => []) actions r ∧
      ¬ r.wire <+: acceptedFrames actions := by
  constructor
  · exact Run.exists_of_replay TxRing.step (fun _ _ => True) (TxRing.init 1 fun _ => [])
      [.send [1], .send [2], .send [3], .send [4]]
      (fun _ r => (rtl8139Send r.transmitter [5]).1.any fun write => (r.owned.map Prod.fst).contains write.1)
      (by decide +kernel)
  · exact Run.exists_of_replay TxRing.step (fun _ _ => True) (TxRing.init 1 fun _ => [])
      [.send [1], .send [2], .send [3], .send [4], .send [5], .complete]
      (fun actions r => ¬ r.wire <+: acceptedFrames actions) (by decide +kernel)

end QuantumKernel.Net
