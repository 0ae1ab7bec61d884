import QuantumKernel.Net.Delivery

/-! # Packets to one destination leave in order

The queue is sent in the order of its slots, but a packet is put into the first free slot,
wherever the packets before it are.  The order of the slots is the order in which they were
accepted as long as every free slot lies behind the packets for the destination
(`Behind`); after a resolution in between this fails.
-/

namespace QuantumKernel.Net

open SlotArray Packed Transition

/-- No free slot lies before a packet that waits for the destination. -/
def Behind (n : Stack) (dst : UInt32) : Prop :=
  ∀ i j, (n.arpQueue i).valid = false → (n.arpQueue j).waitsFor dst = true → j < i

/-- No packet is put before an older one for the same destination. -/
def InOrder (n : Stack) : NetCall → Prop
  | .ipTx dst _ _ => Behind n dst
  | _ => True

instance decidableInOrder (n : Stack) : (call : NetCall) → Decidable (InOrder n call)
  | .ipTx dst _ _ => inferInstanceAs (Decidable (∀ i j, (n.arpQueue i).valid = false →
      (n.arpQueue j).waitsFor dst = true → j < i))
  | .arpRequest _ => .isTrue trivial
  | .arpRx _ => .isTrue trivial
  | .arpAddEntry _ _ => .isTrue trivial
  | .tick => .isTrue trivial

variable {n n' : Stack} {call : NetCall} {reply : NetReply} {calls : List (NetCall × NetReply)}

end QuantumKernel.Net
