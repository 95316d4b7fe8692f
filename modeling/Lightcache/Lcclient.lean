import Lightcache.Protocol
import Lightcache.Foundation.Streams

/-!
# `lcclient.py`: receiving a response

`send_packet` sends `Packet.encode`.  Here is `recv_packet`, on the bytes that
have come in on the socket; `none` stands for a call that still waits for bytes.
-/

namespace Lightcache.Lcclient

open Lightcache Lightcache.Foundation

/-- `Response`, as `recv_packet` fills it in; without data it keeps `None`. -/
structure Response where
  opcode : UInt8
  errcode : UInt8
  data : Option Bytes
  deriving DecidableEq, Repr

def recvUntil (n : Nat) (bytes : Bytes) : Option (Bytes × Bytes) :=
  if n ≤ bytes.length then some (bytes.take n, bytes.drop n) else none

/-- `struct.unpack("BBI", ...)` leaves two bytes out; `ntohl` undoes the byte order. -/
def recvPacket (bytes : Bytes) : Option (Response × Bytes) := do
  let (header, rest) ← recvUntil sizeofRespHeader bytes
  let dataLen := netNat (header.drop 4)
  if dataLen = 0 then
    return (⟨header.getD 0 0, header.getD 1 0, none⟩, rest)
  else
    let (data, rest) ← recvUntil dataLen rest
    return (⟨header.getD 0 0, header.getD 1 0, some data⟩, rest)

/-- What repeated calls of `recv_packet` have returned. -/
def recvPackets (bytes : Bytes) : List Response := (drain recvPacket bytes.length bytes).1

/-- The data of a response: none, if it is empty. -/
def dataOf (payload : Bytes) : Option Bytes := if payload = [] then none else some payload

section RecvUntil

variable {n : Nat} {bytes rest : Bytes}

theorem recvUntil_append (h : bytes.length = n) :
    recvUntil n (bytes ++ rest) = some (bytes, rest) := by
  subst h
  rw [recvUntil, if_pos (by simp), List.take_left, List.drop_left]

theorem recvUntil_none (h : bytes.length < n) : recvUntil n bytes = none :=
  if_neg (Nat.not_le_of_lt h)

end RecvUntil

/-- `recv_packet` takes a response of the server apart. -/
theorem frames_response (resp : Lightcache.Response) {payload : Bytes}
    (hlength : resp.dataLength = payload.length) (hsmall : payload.length < 2 ^ 32) :
    Frames recvPacket ⟨resp.opcode, resp.retcode, dataOf payload⟩ (resp.header ++ payload) := by
  have hlen : netNat (resp.header.drop 4) = payload.length := by
    change netNat (netBytes 4 resp.dataLength) = _
    rw [netNat_netBytes, hlength]
    exact Nat.mod_eq_of_lt hsmall
  have hheader := resp.length_header
  constructor
  · intro rest
    rw [recvPacket, List.append_assoc, recvUntil_append hheader]
    change (if netNat (resp.header.drop 4) = 0 then _ else _) = _
    rw [hlen, dataOf]
    by_cases hnil : payload = []
    · rw [if_pos (by rw [hnil]; rfl), if_pos hnil, hnil]
      rfl
    · rw [if_neg (by simpa using hnil), if_neg hnil, recvUntil_append rfl]
      rfl
  · intro w hw hne
    rw [recvPacket]
    by_cases hshort : w.length < sizeofRespHeader
    · rw [recvUntil_none hshort]
      rfl
    · obtain ⟨v, rfl⟩ : resp.header <+: w :=
        List.prefix_of_prefix_length_le (List.prefix_append ..) hw (by omega)
      have hv : v <+: payload := (List.prefix_append_right_inj _).mp hw
      have hlt : v.length < payload.length := by
        refine lt_of_le_of_ne hv.length_le fun heq => hne ?_
        rw [hv.eq_of_length heq]
      rw [recvUntil_append hheader]
      change (if netNat (resp.header.drop 4) = 0 then _ else _) = _
      rw [hlen, if_neg (by omega), recvUntil_none hlt]
      rfl

end Lightcache.Lcclient
