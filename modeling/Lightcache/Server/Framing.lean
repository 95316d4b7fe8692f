import Lightcache.Server.Session

/-!
# The framing of requests

The reader undoes the encoder: a packet whose fields come in the order of the
reader is received as it was sent, after as many bytes as it is long.
-/

namespace Lightcache.Packet

open Lightcache.Server

variable {p : Packet} {t : Option Field} {n : Nat}

/-- The header of a packet, or one of its fields. -/
def part (p : Packet) : Option Field → Bytes
  | none => p.header
  | some fd => fd.get p.toFields

/-- How many bytes of the packet come before a part. -/
def start (p : Packet) : Option Field → Nat
  | none => 0
  | some .key => sizeofReqHeader
  | some .data => sizeofReqHeader + p.key.length
  | some .extra => sizeofReqHeader + p.key.length + p.data.length

/-- The reader goes on to a field only from the one before it. -/
structure Framed (p : Packet) : Prop where
  data : p.data ≠ [] → p.key ≠ []
  extra : p.extra ≠ [] → p.data ≠ []

/-- How many bytes of the packet the reader takes before it executes it. -/
def readLength (p : Packet) : Nat :=
  if p.key = [] then sizeofReqHeader
  else if p.data = [] then sizeofReqHeader + p.key.length
  else p.encode.length

theorem Framed.readLength (hp : p.Framed) : p.readLength = p.encode.length := by
  rw [Packet.readLength, length_encode, sizeofReqHeader]
  split
  · rename_i hkey
    have hdata : p.data = [] := by
      by_contra hne
      exact hp.data hne hkey
    have hextra : p.extra = [] := by
      by_contra hne
      exact hp.extra hne hdata
    rw [hkey, hdata, hextra]
    rfl
  · split
    · rename_i hdata
      have hextra : p.extra = [] := by
        by_contra hne
        exact hp.extra hne hdata
      rw [hdata, hextra]
      rfl
    · rfl

/-- The rest of a packet that is not framed is left to be read as a header. -/
theorem readLength_lt (hp : ¬ p.Framed) : 0 < p.readLength ∧ p.readLength < p.encode.length := by
  rw [readLength, length_encode, sizeofReqHeader]
  split
  · rename_i hkey
    refine ⟨by decide, ?_⟩
    by_contra hle
    have hdata : p.data = [] := List.eq_nil_of_length_eq_zero (by omega)
    have hextra : p.extra = [] := List.eq_nil_of_length_eq_zero (by omega)
    exact hp ⟨fun hne => absurd hdata hne, fun hne => absurd hextra hne⟩
  · rename_i hkey
    split
    · rename_i hdata
      refine ⟨by omega, ?_⟩
      by_contra hle
      have hextra : p.extra = [] := List.eq_nil_of_length_eq_zero (by omega)
      exact hp ⟨fun hne => absurd hdata hne, fun hne => absurd hextra hne⟩
    · rename_i hdata
      exact absurd ⟨fun _ => hkey, fun _ => hdata⟩ hp

theorem encode_part (h : n < (p.part t).length) :
    p.encode[p.start t + n]? = (p.part t)[n]? := by
  have hheader := p.length_header
  cases t with
  | none =>
      rw [part, hheader] at h
      rw [encode, start, Nat.zero_add, List.getElem?_append_left (by simp; omega),
        List.getElem?_append_left (by simp; omega), List.getElem?_append_left (by simp; omega)]
      rfl
  | some fd =>
      cases fd with
      | key =>
          rw [part, Field.get] at h
          rw [encode, start, List.getElem?_append_left (by simp; omega),
            List.getElem?_append_left (by simp; omega), ← hheader,
            List.getElem?_append_right (Nat.le_add_right ..), Nat.add_sub_cancel_left]
          rfl
      | data =>
          rw [part, Field.get] at h
          rw [encode, start, List.getElem?_append_left (by simp; omega), ← hheader,
            ← List.length_append, List.getElem?_append_right (Nat.le_add_right ..),
            Nat.add_sub_cancel_left]
          rfl
      | extra =>
          rw [encode, start, ← hheader, ← List.length_append, ← List.length_append,
            List.getElem?_append_right (Nat.le_add_right ..), Nat.add_sub_cancel_left]
          rfl

theorem part_length {r : Request} (hheader : r.header = p.header) (fd : Field) :
    fd.length (convertHeader r) = (p.part (some fd)).length := by
  have hlengths : r.header.drop 4 = netBytes 4 p.data.length ++ netBytes 4 p.extra.length := by
    rw [hheader]
    rfl
  cases fd with
  | key =>
      change (r.header.getD 1 0).toNat = p.key.length
      rw [hheader]
      change (UInt8.ofNat p.key.length).toNat = p.key.length
      rw [UInt8.toNat_ofNat', Nat.mod_eq_of_lt (p.key_lt.trans (by decide))]
  | data =>
      change netNat ((r.header.drop 4).take 4) = p.data.length
      rw [hlengths, List.take_left' (length_netBytes ..), netNat_netBytes,
        Nat.mod_eq_of_lt (p.data_lt.trans (by decide))]
  | extra =>
      change netNat ((r.header.drop (4 + 4)).take 4) = p.extra.length
      rw [← List.drop_drop, hlengths, List.drop_left' (length_netBytes ..),
        List.take_of_length_le (length_netBytes ..).le, netNat_netBytes,
        Nat.mod_eq_of_lt (p.extra_lt.trans (by decide))]

theorem part_small (p : Packet) (t : Option Field) : (p.part t).length < 2 ^ 32 := by
  cases t with
  | none => exact lt_of_eq_of_lt p.length_header (by decide)
  | some fd =>
      cases fd
      · exact p.key_lt.trans (by decide)
      · exact p.data_lt.trans (by decide)
      · exact p.extra_lt.trans (by decide)

theorem start_next {state : ConnState} {g : Field} (hfollow : following state = some g) :
    p.start (some g) = p.start (target state) + (p.part (target state)).length := by
  cases state with
  | readHeader =>
      obtain rfl := Option.some.inj hfollow
      change sizeofReqHeader = 0 + p.header.length
      rw [p.length_header, Nat.zero_add]
  | readKey | readData =>
      obtain rfl := Option.some.inj hfollow
      rfl
  | _ => cases hfollow

end Lightcache.Packet

namespace Lightcache.Server

open Lightcache Lightcache.Foundation Lightcache.Hashtab Heap

variable {σ : Type} {H : Host σ} {p : Packet} {state : ConnState} {r r₁ : Request}
  {f f₁ : Fields} {n : Nat} {b : UInt8} {conn conn₁ : Conn}

/-! ## One part of a packet -/

/-- The bytes where `read_nbytes` puts the next one. -/
def held (r : Request) (f : Fields) : Option Field → Bytes
  | none => r.header
  | some fd => fd.get f

/-- The header of the packet has been received, and its lengths converted. -/
structure Converted (p : Packet) (r : Request) : Prop where
  header : r.header = p.header
  lengths : ∀ fd : Field, fd.length r = (p.part (some fd)).length

/-- All parts before the one that `state` reads have arrived, and `n` bytes of that one. -/
structure Arrived (p : Packet) (state : ConnState) (r : Request) (f : Fields) (n : Nat) :
    Prop where
  length : (held r f (target state)).length = (p.part (target state)).length
  bytes : (held r f (target state)).take n = (p.part (target state)).take n
  parsed : state ≠ .readHeader → Converted p r
  earlier : ∀ fd : Field, target state ≠ some fd → fd.get f ≠ [] →
    fd.get f = p.part (some fd)

theorem take_set_succ {l m : Bytes} (hlength : l.length = m.length) (htake : l.take n = m.take n)
    (hb : m[n]? = some b) : (l.set n b).take (n + 1) = m.take (n + 1) := by
  obtain ⟨hn, -⟩ := List.getElem?_eq_some_iff.mp hb
  rw [take_succ_of_getElem? hb, take_succ_of_getElem? (List.getElem?_set_self (hlength ▸ hn)),
    List.take_set_of_le (Nat.le_refl n), htake]

theorem Arrived.total (h : Arrived p state r f n) : total r (target state) =
    (p.part (target state)).length := by
  cases state with
  | readKey => exact (h.parsed (by simp)).lengths .key
  | readData => exact (h.parsed (by simp)).lengths .data
  | readExtra => exact (h.parsed (by simp)).lengths .extra
  | _ => exact p.length_header.symm

theorem Arrived.store (h : Arrived p state r f n) (hshape : Shape f state) (hn : r.rbytes = n)
    (hb : (p.part (target state))[n]? = some b) :
    Arrived p state (stored (target state) r f b).1 (stored (target state) r f b).2 (n + 1) := by
  have hset := take_set_succ h.length h.bytes hb
  have hlength : ((held r f (target state)).set n b).length = _ :=
    (List.length_set ..).trans h.length
  subst hn
  cases htarget : target state with
  | none =>
      rw [htarget] at hset hlength
      have hstate : state = .readHeader := by
        by_contra hne
        exact target_of_waits hshape.waits hne htarget
      refine ⟨by rw [htarget]; exact hlength, by rw [htarget]; exact hset,
        fun hne => absurd hstate hne, fun fd _ hne => absurd ?_ hne⟩
      rw [hstate] at hshape
      rw [← hshape fd]
      cases fd <;> rfl
  | some g =>
      rw [htarget] at hset hlength
      have hheld : held r (g.put f ((g.get f).set r.rbytes b)) (some g) =
          (held r f (some g)).set r.rbytes b := Field.get_put
      refine ⟨?_, ?_, h.parsed, fun fd hne hpart => ?_⟩
      · rw [htarget]
        exact (congrArg List.length hheld).trans hlength
      · rw [htarget]
        exact (congrArg (List.take _) hheld).trans hset
      · have hg : fd ≠ g := fun hfd => hne (hfd ▸ htarget)
        change fd.get (g.put f _) = _
        change fd.get (g.put f _) ≠ [] at hpart
        rw [Field.get_put_of_ne hg] at hpart ⊢
        exact h.earlier fd hne hpart

/-- The part has arrived as a whole. -/
theorem Arrived.full (h : Arrived p state r f (p.part (target state)).length) :
    held r f (target state) = p.part (target state) := by
  have htake := h.bytes
  rwa [List.take_length, List.take_of_length_le h.length.le] at htake

theorem Arrived.whole (h : Arrived p state r f (p.part (target state)).length) (fd : Field)
    (hfd : fd.get f ≠ []) : fd.get f = p.part (some fd) := by
  by_cases htarget : target state = some fd
  · have hheld := h.full
    rwa [htarget] at hheld
  · exact h.earlier fd htarget hfd

/-- When the header is complete, the reader has the lengths of the packet. -/
theorem Arrived.parses (h : Arrived p state r f (p.part (target state)).length) :
    Converted p (settled state r) := by
  rw [Server.settled]
  split
  · rename_i hstate
    have hheld := h.full
    rw [hstate] at hheld
    exact ⟨hheld, fun fd => Packet.part_length hheld fd⟩
  · exact h.parsed ‹_›

theorem Converted.fits (h : Converted p r) : ¬ TooLarge r := by
  rw [TooLarge, not_or, not_or]
  exact ⟨Nat.not_le_of_lt (lt_of_eq_of_lt (h.lengths .data) p.data_lt),
    Nat.not_le_of_lt (lt_of_eq_of_lt (h.lengths .key) p.key_lt),
    Nat.not_le_of_lt (lt_of_eq_of_lt (h.lengths .extra) p.extra_lt)⟩

/-- The reader goes on to a field of the packet that is not empty. -/
theorem Converted.next (h : Converted p r) {g : Field} (hnext : nextField r state = some g) :
    following state = some g ∧ p.part (some g) ≠ [] := by
  obtain ⟨hfollow, hlen⟩ := Option.filter_eq_some_iff.mp hnext
  refine ⟨hfollow, fun hnil => ?_⟩
  have hzero := h.lengths g
  rw [hnil] at hzero
  simp [hzero] at hlen

/-- The field that the reader would go on to is empty. -/
theorem Converted.last (h : Converted p r) (hnext : nextField r state = none) {g : Field}
    (hfollow : following state = some g) : p.part (some g) = [] := by
  rw [nextField, hfollow] at hnext
  have hlen : g.length r = 0 := by simpa using hnext
  exact List.eq_nil_of_length_eq_zero (by rw [← h.lengths g, hlen])

/-! ## One byte of a packet -/

/-- What a packet of which `n` bytes have arrived is to its reader. -/
inductive Takes (p : Packet) (conn : Conn) (r : Request) (f : Fields) (n : Nat) : Bool → Prop
  | more (awaits : awaited conn.state = some .read) (arrived : Arrived p conn.state r f r.rbytes)
      (position : p.start (target conn.state) + r.rbytes = n) : Takes p conn r f n false
  | received (fields : p.Framed → f = p.toFields) (length : p.readLength = n) :
      Takes p conn r f n true

/-- What the reader has taken of a byte. -/
theorem taken_byte (t : Option Field) (r : Request) (f : Fields) (b : UInt8)
    (hindex : r.rbytes < total r t) (hsmall : total r t < 2 ^ 32) :
    taken t r f (.byte b) =
      if r.rbytes + 1 = total r t then
        ({ (stored t r f b).1 with rbytes := 0 }, (stored t r f b).2, .readCompleted)
      else ({ (stored t r f b).1 with rbytes := r.rbytes + 1 }, (stored t r f b).2, .needMore) := by
  have hcounted : (taken t r f (.byte b)) = ((counted t (stored t r f b).1 1).1,
      (stored t r f b).2, (counted t (stored t r f b).1 1).2) := rfl
  rw [hcounted, counted_one (by rwa [total_stored, stored_rbytes]) (by rwa [total_stored]),
    total_stored, stored_rbytes]
  split <;> rfl

/-- The index is no part of what has arrived. -/
theorem Arrived.withIndex (h : Arrived p state r f n) (k : Nat) :
    Arrived p state { r with rbytes := k } f n := by
  have hheld : held { r with rbytes := k } f (target state) = held r f (target state) := by
    cases target state <;> rfl
  refine ⟨by rw [hheld]; exact h.length, by rw [hheld]; exact h.bytes, fun hne => ?_, h.earlier⟩
  obtain ⟨hheader, hlengths⟩ := h.parsed hne
  exact ⟨hheader, fun fd => by rw [← hlengths fd]; cases fd <;> rfl⟩

/-- The reader executes a packet when it finds no field to go on to. -/
theorem Converted.ends (h : Converted p r) (hnext : nextField r state = none)
    (hshape : Shape f state)
    (hwhole : ∀ fd : Field, fd.get f ≠ [] → fd.get f = p.part (some fd)) :
    p.readLength = p.start (target state) + (p.part (target state)).length := by
  have hkey : f.key ≠ [] → p.key ≠ [] := fun hne hnil => hne ((hwhole .key hne).trans hnil)
  have hdata : f.data ≠ [] → p.data ≠ [] := fun hne hnil => hne ((hwhole .data hne).trans hnil)
  rw [Packet.readLength]
  cases state with
  | readHeader =>
      rw [if_pos (show p.key = [] from h.last hnext (g := .key) rfl)]
      change _ = 0 + p.header.length
      rw [p.length_header, Nat.zero_add]
  | readKey =>
      rw [if_neg (hkey hshape.1),
        if_pos (show p.data = [] from h.last hnext (g := .data) rfl)]
      rfl
  | readData =>
      have hextra : p.extra = [] := h.last hnext (g := .extra) rfl
      rw [if_neg (hkey hshape.1), if_neg (hdata hshape.2.1), Packet.length_encode, hextra]
      rfl
  | readExtra =>
      rw [if_neg (hkey hshape.1), if_neg (hdata hshape.2.1), Packet.length_encode]
      rfl
  | _ => exact hshape.elim

/-- All fields of a framed packet have arrived when the reader executes it. -/
theorem Converted.fields (h : Converted p r) (hp : p.Framed) (hnext : nextField r state = none)
    (hshape : Shape f state)
    (hwhole : ∀ fd : Field, fd.get f ≠ [] → fd.get f = p.part (some fd)) (fd : Field) :
    fd.get f = p.part (some fd) := by
  have hdata : p.key = [] → p.data = [] := fun hk => by
    by_contra hne
    exact hp.data hne hk
  have hextra : p.data = [] → p.extra = [] := fun hd => by
    by_contra hne
    exact hp.extra hne hd
  cases state with
  | readHeader =>
      have hk : p.key = [] := h.last hnext (g := .key) rfl
      rw [hshape fd]
      cases fd
      · exact hk.symm
      · exact (hdata hk).symm
      · exact (hextra (hdata hk)).symm
  | readKey =>
      have hd : p.data = [] := h.last hnext (g := .data) rfl
      cases fd
      · exact hwhole .key hshape.1
      · exact hshape.2.1.trans hd.symm
      · exact hshape.2.2.trans (hextra hd).symm
  | readData =>
      have he : p.extra = [] := h.last hnext (g := .extra) rfl
      cases fd
      · exact hwhole .key hshape.1
      · exact hwhole .data hshape.2.1
      · exact hshape.2.2.trans he.symm
  | readExtra =>
      cases fd
      · exact hwhole .key hshape.1
      · exact hwhole .data hshape.2.1
      · exact hwhole .extra hshape.2.2
  | _ => exact hshape.elim

theorem fields_eq {g : Fields} (hopcode : f.opcode = g.opcode)
    (hfields : ∀ fd : Field, fd.get f = fd.get g) : f = g := by
  obtain ⟨opcode, key, data, extra⟩ := f
  obtain ⟨opcode', key', data', extra'⟩ := g
  obtain rfl : opcode = opcode' := hopcode
  obtain rfl : key = key' := hfields .key
  obtain rfl : data = data' := hfields .data
  obtain rfl : extra = extra' := hfields .extra
  rfl

/-- The byte that completes a part. -/
theorem Arrived.advance (h : Arrived p state r f (p.part (target state)).length)
    {g : Field} (hnext : nextField (settled state r) state = some g) {a : Addr} {bytes : Bytes}
    (hlength : bytes.length = g.length (settled state r)) :
    Arrived p g.state (g.setPtr (settled state r) (some a)) (g.put f bytes) 0 := by
  have hparsed := h.parses
  have htarget : target g.state = some g := by cases g <;> rfl
  refine ⟨?_, rfl, fun _ => ⟨?_, fun fd => ?_⟩, fun fd hne hfd => ?_⟩
  · rw [htarget]
    change (g.get (g.put f bytes)).length = _
    rw [Field.get_put, hlength, hparsed.lengths]
  · rw [Field.setPtr_header, hparsed.header]
  · rw [Field.length_setPtr, hparsed.lengths]
  · have hg : fd ≠ g := fun hfd => hne (hfd ▸ htarget)
    rw [Field.get_put_of_ne hg] at hfd ⊢
    exact h.whole fd hfd

/-- One call of `try_read_request` with a byte of a packet. -/
theorem Reads.takes {mem : σ} {ret : SocketState} {received : Bool}
    (hreads : Reads H mem conn r f (.byte b) r₁ f₁ conn₁ ret received) (hA : H.alloc.NeverFails)
    (hrd : Reading conn r f) (h : Arrived p conn.state r f r.rbytes)
    (hindex : r.rbytes < total r (target conn.state))
    (hbyte : p.encode[p.start (target conn.state) + r.rbytes]? = some b)
    (hopcode : f₁.opcode = r₁.opcode) :
    Takes p conn₁ r₁ f₁ (p.start (target conn.state) + r.rbytes + 1) received := by
  have htotal := h.total
  rw [Packet.encode_part (htotal ▸ hindex)] at hbyte
  have hsmall : total r (target conn.state) < 2 ^ 32 := by
    rw [htotal]
    exact p.part_small (target conn.state)
  have hstore := h.store hrd.shape rfl hbyte
  have htaken := taken_byte (target conn.state) r f b hindex hsmall
  have hdone : ∀ {r₂ f₂}, taken (target conn.state) r f (.byte b) = (r₂, f₂, .readCompleted) →
      r.rbytes + 1 = (p.part (target conn.state)).length ∧ r₂.rbytes = 0 ∧
        Arrived p conn.state r₂ f₂ (p.part (target conn.state)).length := by
    intro r₂ f₂ hstep
    rw [htaken] at hstep
    split at hstep
    · rename_i hlast
      obtain ⟨rfl, hrest⟩ := Prod.mk.inj hstep
      obtain ⟨rfl, -⟩ := Prod.mk.inj hrest
      rw [htotal] at hlast
      exact ⟨hlast, rfl, hlast ▸ hstore.withIndex 0⟩
    · cases (Prod.mk.inj (Prod.mk.inj hstep).2).2
  cases hreads with
  | more hret step =>
      rw [htaken] at step
      split at step
      · exact absurd (Prod.mk.inj (Prod.mk.inj step).2).2.symm hret
      · obtain ⟨rfl, hrest⟩ := Prod.mk.inj step
        obtain ⟨rfl, -⟩ := Prod.mk.inj hrest
        exact .more hrd.shape.waits (hstore.withIndex _) (Nat.add_assoc ..).symm
  | refused state step large =>
      obtain ⟨-, -, hfull⟩ := hdone step
      have hparsed := hfull.parses
      rw [Server.settled, if_pos state] at hparsed
      exact absurd large hparsed.fits
  | exhausted step fits next fails refused => exact absurd hA fails
  | field step fits next length =>
      obtain ⟨hlast, hzero, hfull⟩ := hdone step
      refine .more (awaited_field _) ?_ ?_
      · rw [Field.setPtr_rbytes, settled_rbytes, hzero]
        exact hfull.advance next length
      · have htarget : ∀ g : Field, target g.state = some g := fun g => by cases g <;> rfl
        rw [Field.setPtr_rbytes, settled_rbytes, hzero, Nat.add_zero, Nat.add_assoc, hlast,
          ← Packet.start_next (hfull.parses.next next).1]
        exact congrArg _ (htarget _)
  | received step fits next =>
      obtain ⟨hlast, -, hfull⟩ := hdone step
      have hshape := taken_shape (r := r) hrd.shape (.byte b)
      rw [step] at hshape
      have hparsed := hfull.parses
      refine .received (fun hp => fields_eq ?_ (hparsed.fields hp next hshape hfull.whole)) ?_
      · rw [hopcode, Request.opcode, hparsed.header]
        rfl
      · rw [hparsed.ends next hshape hfull.whole, ← hlast, Nat.add_assoc]

end Lightcache.Server
