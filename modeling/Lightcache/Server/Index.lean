import Lightcache.Server.Sender
import Lightcache.Server.Phases

/-!
# The receive index

`read_nbytes` puts the next byte at `bytes[rbytes]`.  While no read fails,
`rbytes` counts the bytes of the current field, and stays below its length.
-/

namespace Lightcache.Server

open Lightcache Lightcache.Foundation Lightcache.Hashtab Heap

variable {σ : Type} {H : Host σ} {c c' : Ctx σ} {q : Addr} {r : Request}
  {t : Option Field} {n : Nat} {x : UInt8} {res : ReadResult}

/-- The buffer behind the target of the next byte, with room for a final NUL. -/
def Room (c : Ctx σ) (r : Request) (t : Option Field) : Prop :=
  ∀ f, t = some f → ∃ a bytes, f.ptr r = some a ∧ c.heap.bufs a = some bytes ∧
    bytes.length = f.length r + 1

/-- What a request keeps while its bytes arrive. -/
structure Progress (t : Option Field) (r r₁ : Request) : Prop where
  header : r₁.header.length = r.header.length
  lengths : r₁.dataLength = r.dataLength ∧ r₁.extraLength = r.extraLength
  key : t ≠ none → r₁.keyLength = r.keyLength
  ptr : ∀ f : Field, f.ptr r₁ = f.ptr r

theorem stored_progress (t : Option Field) (r : Request) (f : Fields) (x : UInt8) :
    Progress t r (stored t r f x).1 := by
  cases t with
  | none =>
      refine ⟨List.length_set .., ⟨rfl, rfl⟩, fun h => absurd rfl h, fun f => ?_⟩
      cases f <;> rfl
  | some fd => exact ⟨rfl, ⟨rfl, rfl⟩, fun _ => rfl, fun _ => rfl⟩

theorem Progress.withIndex {r₁ : Request} (h : Progress t r r₁) (n : Nat) :
    Progress t r { r₁ with rbytes := n } :=
  ⟨h.header, h.lengths, h.key, fun f => by rw [← h.ptr f]; cases f <;> rfl⟩

theorem countBytes_eq (hreq : c.heap.reqs q = some r) (n : Int) :
    countBytes c q n (total r t) = .ok ({ c with
      heap := c.heap.writeRequest q (counted t r n).1
      stats := { c.stats with bytesRead := c.stats.bytesRead + UInt64.ofInt n } },
      (counted t r n).2) := by
  rw [countBytes, readRequest_eq hreq, ok_bind, counted]
  dsimp only
  split <;> rfl

/-- A byte that arrives is stored inside the field. -/
theorem storeByte_room (hreq : c.heap.reqs q = some r)
    (hheader : r.header.length = sizeofReqHeader) (hroom : Room c r t)
    (hindex : r.rbytes < total r t) :
    ∃ heap, storeByte c q r x t = .ok heap ∧
      heap.reqs q = some (stored t r (noFields r) x).1 ∧
      Room { c with heap := heap } r t := by
  cases t with
  | none =>
      refine ⟨_, if_pos (by rw [hheader]; exact hindex), Heap.writeRequest_reqs .., ?_⟩
      exact fun f hf => by cases hf
  | some fd =>
      obtain ⟨a, bytes, hptr, hbuf, hlen⟩ := hroom fd rfl
      rw [storeByte, hptr]
      dsimp only
      rw [hbuf]
      dsimp only
      rw [if_pos (by rw [hlen]; exact Nat.lt_succ_of_lt hindex)]
      refine ⟨_, rfl, hreq, fun f hf => ?_⟩
      obtain rfl := Option.some.inj hf
      exact ⟨a, _, hptr, Heap.writeBytes_bufs .., by rw [List.length_set, hlen]⟩

theorem readNbytes_byte (hin : c.conn.inReq = some q) (hreq : c.heap.reqs q = some r)
    (hheader : r.header.length = sizeofReqHeader) (hroom : Room c r t)
    (hindex : r.rbytes < total r t) :
    ∃ c₁, readNbytes c t (total r t) (.byte x) =
        .ok (c₁, (counted t (stored t r (noFields r) x).1 1).2) ∧
      c₁.conn = heard c.conn (.byte x) ∧
      c₁.stats.bytesRead = c.stats.bytesRead + 1 ∧
      c₁.heap.reqs q = some (counted t (stored t r (noFields r) x).1 1).1 ∧
      Room c₁ r t := by
  obtain ⟨heap, hstore, hreq₁, hroom₁⟩ := storeByte_room (x := x) hreq hheader hroom hindex
  have hcount := countBytes_eq (t := t) (n := 1) (c := { c with
    heap := heap, conn := heard c.conn (.byte x) }) hreq₁
  rw [total_stored] at hcount
  refine ⟨_, Eq.trans ?_ hcount, rfl, rfl, Heap.writeRequest_reqs .., hroom₁⟩
  rw [readNbytes, Ctx.readIn, hin]
  dsimp only
  rw [readRequest_eq hreq, ok_bind, pure_bind]
  dsimp only
  rw [hstore]
  rfl

/-- The index after a byte. -/
theorem counted_one (hindex : r.rbytes < total r t) (hsmall : total r t < 2 ^ 32) :
    counted t r 1 =
      if r.rbytes + 1 = total r t then ({ r with rbytes := 0 }, .readCompleted)
      else ({ r with rbytes := r.rbytes + 1 }, .needMore) := by
  have hnext : uint32 ((r.rbytes : Int) + 1) = r.rbytes + 1 := by
    rw [uint32]
    omega
  rw [counted, hnext]

theorem stored_rbytes (t : Option Field) (r : Request) (f : Fields) (x : UInt8) :
    (stored t r f x).1.rbytes = r.rbytes := by
  cases t <;> rfl

/-! ## From field to field -/

/-- The bytes of a request before the field that a state reads. -/
def before (r : Request) : ConnState → Nat
  | .readKey => sizeofReqHeader
  | .readData => sizeofReqHeader + r.keyLength
  | .readExtra => sizeofReqHeader + r.keyLength + r.dataLength
  | _ => 0

/-- The connection has received `n` bytes of its request. -/
structure InField (c : Ctx σ) (q : Addr) (r : Request) (n : Nat) : Prop where
  waits : awaited c.conn.state = some .read
  inReq : c.conn.inReq = some q
  req : c.heap.reqs q = some r
  header : r.header.length = sizeofReqHeader
  index : r.rbytes < total r (target c.conn.state)
  received : before r c.conn.state + r.rbytes = n
  fits : c.conn.state ≠ .readHeader → ¬ TooLarge r
  room : Room c r (target c.conn.state)

/-- After `n` bytes the connection waits for more of them, or for something else. -/
def Onward (c : Ctx σ) (n : Nat) : Prop :=
  (∃ q r, InField c q r n) ∨ awaited c.conn.state ≠ some .read

/-- What a byte does to the counters. -/
structure Counted (c c' : Ctx σ) : Prop where
  consumed : c'.conn.trace.consumed = c.conn.trace.consumed + 1
  bytesRead : c'.stats.bytesRead = c.stats.bytesRead + 1

theorem total_lt {state : ConnState} (hfits : state ≠ .readHeader → ¬ TooLarge r) :
    total r (target state) < protocolMaxDataSize := by
  have hlarge : ¬ TooLarge r → ∀ f : Field, f.length r < protocolMaxDataSize := by
    intro h f
    simp only [TooLarge, not_or, protocolMaxDataSize, protocolMaxKeySize,
      protocolMaxExtraSize] at h ⊢
    cases f <;> simp only [Field.length] <;> omega
  cases state with
  | readKey => exact hlarge (hfits (by simp)) .key
  | readData => exact hlarge (hfits (by simp)) .data
  | readExtra => exact hlarge (hfits (by simp)) .extra
  | _ => exact (by decide : sizeofReqHeader < protocolMaxDataSize)

/-- The buffer of the next field is there, or a response is queued. -/
theorem setReadField_onward {f : Field} (hin : c.conn.inReq = some q)
    (hreq : c.heap.reqs q = some r) (hheader : r.header.length = sizeofReqHeader)
    (hzero : r.rbytes = 0) (hlen : f.length r ≠ 0) (hfits : ¬ TooLarge r) :
    ∃ c', setReadField H c f = .ok c' ∧ Onward c' (before r f.state) ∧
      c'.conn.trace = c.conn.trace ∧ c'.stats = c.stats := by
  rw [setReadField, Ctx.readIn, hin]
  dsimp only
  rw [readRequest_eq hreq, ok_bind, pure_bind]
  dsimp only
  rcases hm : c.heap.mallocBytes H (f.length r + 1) with ⟨_ | a, heap⟩
  · have hreq' : heap.reqs q = some r := by
      rw [mallocBytes] at hm
      rcases hm' : liMalloc H.alloc c.heap.mem (f.length r + 1) with ⟨_ | b, mem⟩ <;>
        rw [hm'] at hm
      · obtain ⟨-, rfl⟩ := Prod.mk.inj hm
        exact hreq
      · cases hm
    exact ⟨_, sendResponse_eq (c := { c with heap := heap }) hin hreq' .outOfMemory,
      .inr (by simp [queued, awaited]), rfl, rfl⟩
  · have hbuf : ∃ bytes, heap.bufs a = some bytes ∧ bytes.length = f.length r + 1 := by
      rw [mallocBytes] at hm
      rcases hm' : liMalloc H.alloc c.heap.mem (f.length r + 1) with ⟨_ | b, mem⟩ <;>
        rw [hm'] at hm
      · cases hm
      · obtain ⟨ha, rfl⟩ := Prod.mk.inj hm
        obtain rfl := Option.some.inj ha
        exact ⟨_, Function.update_self .., newBlock_length ..⟩
    obtain ⟨bytes, hbytes, hlength⟩ := hbuf
    have htarget : target f.state = some f := by cases f <;> rfl
    have hbefore : before (f.setPtr r (some a)) f.state = before r f.state := by
      cases f <;> rfl
    refine ⟨_, rfl, .inl ⟨q, f.setPtr r (some a), awaited_field f, hin,
      Heap.writeRequest_reqs .., by rw [Field.setPtr_header, hheader], ?_, ?_, fun _ => ?_,
      ?_⟩, rfl, rfl⟩
    · change (f.setPtr r (some a)).rbytes < total (f.setPtr r (some a)) (target f.state)
      rw [htarget, total, Field.length_setPtr, Field.setPtr_rbytes, hzero]
      exact Nat.pos_of_ne_zero hlen
    · change before (f.setPtr r (some a)) f.state + (f.setPtr r (some a)).rbytes = _
      rw [hbefore, Field.setPtr_rbytes, hzero, Nat.add_zero]
    · cases f <;> exact hfits
    · change Room _ _ (target f.state)
      rw [htarget]
      intro g hg
      obtain rfl := Option.some.inj hg
      refine ⟨a, _, Field.ptr_setPtr, Heap.writeBytes_bufs .., ?_⟩
      rw [hbytes, Option.getD_some, List.length_set, hlength, Field.length_setPtr]

theorem Progress.length {r₁ : Request} (h : Progress t r r₁) (ht : t ≠ none) (g : Field) :
    g.length r₁ = g.length r := by
  cases g
  · exact h.key ht
  · exact h.lengths.1
  · exact h.lengths.2

theorem Progress.tooLarge {r₁ : Request} (h : Progress t r r₁) (ht : t ≠ none) :
    TooLarge r₁ ↔ TooLarge r := by
  rw [TooLarge, TooLarge, h.lengths.1, h.lengths.2, h.key ht]

theorem target_of_waits {state : ConnState} (hwaits : awaited state = some .read)
    (hstate : state ≠ .readHeader) : target state ≠ none := by
  cases state with
  | readHeader => exact absurd rfl hstate
  | readKey => simp [target]
  | readData => simp [target]
  | readExtra => simp [target]
  | _ => cases hwaits

theorem Progress.before {state : ConnState} {r₁ : Request}
    (h : Progress (target state) r r₁) : before r₁ state = before r state := by
  cases state with
  | readData => exact congrArg (sizeofReqHeader + ·) (h.key (by simp [target]))
  | readExtra =>
      rw [Server.before, Server.before, h.key (by simp [target]), h.lengths.1]
  | _ => rfl

theorem Room.progress {r₁ : Request} (h : Room c r t) (hp : Progress t r r₁) :
    Room c r₁ t := by
  intro f hf
  obtain ⟨a, bytes, hptr, hbuf, hlen⟩ := h f hf
  subst hf
  exact ⟨a, bytes, (hp.ptr f).trans hptr, hbuf, by rw [hlen, hp.length (by simp)]⟩

/-- A byte leads on inside its field, or completes it. -/
theorem InField.byte (h : InField c q r n) (x : UInt8) :
    ∃ c₁ r₁ ret, readNbytes c (target c.conn.state) (total r (target c.conn.state))
        (.byte x) = .ok (c₁, ret) ∧ Counted c c₁ ∧ c₁.conn = heard c.conn (.byte x) ∧
      c₁.heap.reqs q = some r₁ ∧ Progress (target c.conn.state) r r₁ ∧
      ((ret = .needMore ∧ InField c₁ q r₁ (n + 1)) ∨
        (ret = .readCompleted ∧ r₁.rbytes = 0 ∧
          before r c.conn.state + total r (target c.conn.state) = n + 1)) := by
  obtain ⟨c₁, hread, hconn, hstats, hreq, hroom⟩ :=
    readNbytes_byte (x := x) h.inReq h.req h.header h.room h.index
  have hprogress := stored_progress (target c.conn.state) r (noFields r) x
  have hindex := stored_rbytes (target c.conn.state) r (noFields r) x
  have htotal := total_stored (t := target c.conn.state) (r := r) (f := noFields r) x
  rw [counted_one (by rw [hindex, htotal]; exact h.index)
    (by rw [htotal]; exact (total_lt h.fits).trans (by decide)), hindex, htotal] at hread hreq
  have hcounted : Counted c c₁ := ⟨by rw [hconn]; rfl, hstats⟩
  have hn := h.received
  by_cases hlast : r.rbytes + 1 = total r (target c.conn.state)
  · rw [if_pos hlast] at hread hreq
    exact ⟨c₁, _, _, hread, hcounted, hconn, hreq, hprogress.withIndex 0,
      .inr ⟨rfl, rfl, by omega⟩⟩
  · rw [if_neg hlast] at hread hreq
    have hp := hprogress.withIndex (r.rbytes + 1)
    have hstate : c₁.conn.state = c.conn.state := by rw [hconn]; rfl
    have hlt := h.index
    refine ⟨c₁, _, _, hread, hcounted, hconn, hreq, hp, .inl ⟨rfl, ?_⟩⟩
    refine ⟨by rw [hstate]; exact h.waits, by rw [hconn]; exact h.inReq, hreq,
      hp.header.trans h.header, ?_, ?_, fun hne => ?_, ?_⟩
    · rw [hstate]
      refine lt_of_lt_of_eq ?_ htotal.symm
      dsimp only
      omega
    · rw [hstate, Progress.before hp]
      dsimp only
      omega
    · rw [hstate] at hne
      exact mt (hp.tooLarge (target_of_waits h.waits hne)).mp (h.fits hne)
    · rw [hstate]
      exact hroom.progress hp

/-- What one call of `try_read_request` does with a byte. -/
def Steps (c : Ctx σ) (n : Nat) (x : Ctx σ × SocketState × Bool) : Prop :=
  Counted c x.1 ∧ x.2.1 ≠ .readErr ∧ Onward x.1 (n + 1)

theorem received_onward (c : Ctx σ) (n : Nat) : Onward (setCmdReceived c).1 n :=
  .inr (by simp [setCmdReceived, Ctx.withConn, awaited])

theorem readHeader_byte (h : InField c q r n) (hstate : c.conn.state = .readHeader)
    (x : UInt8) : Post (readHeader H c (.byte x)) (Steps c n) (fun _ => False) := by
  obtain ⟨c₁, r₁, ret, hread, hcounted, hconn, hreq, hprogress, hnext⟩ := h.byte x
  rw [hstate] at hread hnext
  rw [readHeader, show readNbytes c none sizeofReqHeader (.byte x) = _ from hread, ok_bind]
  dsimp only
  rcases hnext with ⟨rfl, hfield⟩ | ⟨rfl, hzero, htotal⟩
  · rw [if_pos (by simp)]
    exact ⟨hcounted, by simp, .inl ⟨q, r₁, hfield⟩⟩
  · have hin : c₁.conn.inReq = some q := by
      rw [hconn]
      exact h.inReq
    have hn : n + 1 = sizeofReqHeader := by
      rw [← htotal]
      rfl
    have hheader : (convertHeader r₁).header.length = sizeofReqHeader :=
      hprogress.header.trans h.header
    rw [if_neg (by simp), Ctx.readIn, hin]
    dsimp only
    rw [readRequest_eq hreq, ok_bind, pure_bind]
    dsimp only
    split
    · rw [sendResponse_eq (c := { c₁ with
        heap := c₁.heap.writeRequest q (convertHeader r₁) }) hin (Heap.writeRequest_reqs ..)]
      exact ⟨⟨hcounted.consumed, hcounted.bytesRead⟩, by simp,
        .inr (by simp [queued, awaited])⟩
    · rename_i hfits
      split
      · exact ⟨⟨hcounted.consumed, hcounted.bytesRead⟩, by simp [setCmdReceived],
          received_onward _ _⟩
      · rename_i hkey
        obtain ⟨c', hc', honward, htrace, hstats⟩ := setReadField_onward (H := H) (f := .key)
          (c := { c₁ with heap := c₁.heap.writeRequest q (convertHeader r₁) }) hin
          (Heap.writeRequest_reqs ..) hheader hzero hkey hfits
        rw [hc']
        exact ⟨⟨by rw [htrace]; exact hcounted.consumed,
          by rw [hstats]; exact hcounted.bytesRead⟩, by simp, hn ▸ honward⟩

theorem readField_byte {f : Field} {next : Option Field} (h : InField c q r n)
    (hstate : c.conn.state = f.state)
    (hnext : ∀ g, next = some g → ∀ r : Request, before r g.state =
      before r f.state + f.length r) (x : UInt8) :
    Post (readField H c f next (.byte x)) (Steps c n) (fun _ => False) := by
  obtain ⟨c₁, r₁, ret, hread, hcounted, hconn, hreq, hprogress, hafter⟩ := h.byte x
  have htarget : target c.conn.state = some f := by
    rw [hstate]
    cases f <;> rfl
  have hfits : ¬ TooLarge r := h.fits (by rw [hstate]; cases f <;> simp [Field.state])
  rw [htarget] at hread hprogress hafter
  rw [readField, Ctx.readIn, h.inReq]
  dsimp only
  rw [readRequest_eq h.req, ok_bind, pure_bind]
  dsimp only
  rw [show readNbytes c (some f) (f.length r) (.byte x) = _ from hread, ok_bind]
  dsimp only
  rcases hafter with ⟨rfl, hfield⟩ | ⟨rfl, hzero, htotal⟩
  · rw [if_pos (by simp)]
    exact ⟨hcounted, by simp, .inl ⟨q, r₁, hfield⟩⟩
  · have hin : c₁.conn.inReq = some q := by
      rw [hconn]
      exact h.inReq
    rw [if_neg (by simp), Ctx.readIn, hin]
    dsimp only
    rw [readRequest_eq hreq, ok_bind, pure_bind]
    dsimp only
    cases next with
    | none => exact ⟨⟨hcounted.consumed, hcounted.bytesRead⟩, by simp [setCmdReceived],
        received_onward _ _⟩
    | some g =>
        dsimp only
        split
        · exact ⟨⟨hcounted.consumed, hcounted.bytesRead⟩, by simp [setCmdReceived],
            received_onward _ _⟩
        · rename_i hlen
          obtain ⟨c', hc', honward, htrace, hstats⟩ := setReadField_onward (H := H)
            (f := g) hin hreq (hprogress.header.trans h.header) hzero hlen
            (mt (hprogress.tooLarge (by simp)).mp hfits)
          have hn : before r₁ g.state = n + 1 := by
            rw [hnext g rfl, hprogress.length (by simp), ← htotal, hstate]
            have hfield : Progress (target f.state) r r₁ := by
              rw [← hstate, htarget]
              exact hprogress
            exact congrArg (· + _) hfield.before
          rw [hc']
          exact ⟨⟨by rw [htrace]; exact hcounted.consumed,
            by rw [hstats]; exact hcounted.bytesRead⟩, by simp, hn ▸ honward⟩

theorem InField.assertField (h : InField c q r n) {f : Field} (hstate : c.conn.state = f.state) :
    assertField c f = .ok () := by
  have htarget : target c.conn.state = some f := by
    rw [hstate]
    cases f <;> rfl
  obtain ⟨a, bytes, hptr, -, -⟩ := h.room f htarget
  have hlt := h.index
  rw [htarget, total] at hlt
  rw [Server.assertField, h.inReq]
  dsimp only
  rw [readRequest_eq h.req, ok_bind, hptr]
  exact if_neg (by simp; omega)

theorem InField.readRequest (h : InField c q r n) (x : UInt8) :
    Post (readRequest H c (.byte x)) (Steps c n) (fun _ => False) := by
  rw [Server.readRequest]
  have hwaits := h.waits
  cases hstate : c.conn.state with
  | readHeader => exact readHeader_byte h hstate x
  | readKey =>
      dsimp only
      rw [h.assertField (f := .key) hstate, ok_bind]
      exact readField_byte (f := .key) h hstate (by rintro g ⟨⟩ r; rfl) x
  | readData =>
      dsimp only
      rw [h.assertField (f := .data) hstate, ok_bind]
      exact readField_byte (f := .data) h hstate (by rintro g ⟨⟩ r; rfl) x
  | readExtra => exact readField_byte (f := .extra) h hstate (by rintro g ⟨⟩) x
  | _ =>
      rw [hstate] at hwaits
      cases hwaits

/-- A call that does not complete its field. -/
theorem InField.stalled {c₁ : Ctx σ} (h : InField c q r n) (ret : SocketState)
    (hread : readNbytes c (target c.conn.state) (total r (target c.conn.state)) res =
      .ok (c₁, ret)) (hret : ret ≠ .readCompleted) :
    Server.readRequest H c res = .ok (c₁, ret, false) := by
  have hfield : ∀ f next, c.conn.state = Field.state f →
      readField H c f next res = .ok (c₁, ret, false) := by
    intro f next hstate
    have htarget : target c.conn.state = some f := by
      rw [hstate]
      cases f <;> rfl
    rw [htarget] at hread
    rw [readField, Ctx.readIn, h.inReq]
    dsimp only
    rw [readRequest_eq h.req, ok_bind, pure_bind]
    dsimp only
    rw [show readNbytes c (some f) (f.length r) res = _ from hread, ok_bind]
    exact if_pos hret
  have hwaits := h.waits
  rw [Server.readRequest]
  cases hstate : c.conn.state with
  | readHeader =>
      rw [hstate] at hread
      dsimp only
      rw [readHeader, show readNbytes c none sizeofReqHeader res = _ from hread, ok_bind]
      exact if_pos hret
  | readKey =>
      dsimp only
      rw [h.assertField (f := .key) hstate, ok_bind, hfield .key _ hstate]
  | readData =>
      dsimp only
      rw [h.assertField (f := .data) hstate, ok_bind, hfield .data _ hstate]
  | readExtra => exact hfield .extra _ hstate
  | _ =>
      rw [hstate] at hwaits
      cases hwaits

theorem InField.readIn (h : InField c q r n) : c.readIn = .ok (q, r) := by
  rw [Ctx.readIn, h.inReq]
  dsimp only
  rw [readRequest_eq h.req]
  rfl

/-! ## Every sequence of results -/

/-- `try_read_request` up to `execute_cmd`, while the connection is read from. -/
def receive (H : Host σ) (x : Ctx σ × SocketState) (res : ReadResult) :
    Except Fault (Ctx σ × SocketState) :=
  if awaited x.1.conn.state = some .read ∧ x.2 ≠ .readErr then do
    let (c, ret, _) ← readRequest H x.1 res
    return (c, ret)
  else .ok x

/-- The number of bytes that `read` has returned. -/
def bytesIn (results : List ReadResult) : Nat :=
  results.countP fun res => match res with | .byte _ => true | _ => false

/-- `k` bytes have been counted since `c`. -/
structure CountedTo (c c' : Ctx σ) (k : Nat) : Prop where
  consumed : c'.conn.trace.consumed = c.conn.trace.consumed + k
  bytesRead : c'.stats.bytesRead = c.stats.bytesRead + UInt64.ofNat k

/-- The connection is still read from, or has counted what it was sent until then. -/
def Keeps (c : Ctx σ) (n : Nat) (x : Ctx σ × SocketState) : Prop :=
  (x.2 ≠ .readErr ∧ (∃ q r, InField x.1 q r n) ∧ CountedTo c x.1 n) ∨
    ((x.2 = .readErr ∨ awaited x.1.conn.state ≠ some .read) ∧
      ∃ k, k ≤ n ∧ CountedTo c x.1 k)

theorem CountedTo.succ {c₀ : Ctx σ} (h : CountedTo c₀ c n) (h₁ : Counted c c') :
    CountedTo c₀ c' (n + 1) := by
  refine ⟨?_, ?_⟩
  · rw [h₁.consumed, h.consumed, Nat.add_assoc]
  · rw [h₁.bytesRead, h.bytesRead, UInt64.ofNat_add, UInt64.add_assoc]
    rfl

theorem Keeps.receive {c₀ : Ctx σ} {x : Ctx σ × SocketState} (h : Keeps c₀ n x)
    (hres : res ≠ .error) :
    Post (receive H x res) (Keeps c₀ (n + bytesIn [res])) (fun _ => False) := by
  obtain ⟨c, ret⟩ := x
  rw [Server.receive]
  rcases h with ⟨hret, ⟨q, r, hfield⟩, hcounted⟩ | ⟨hstop, k, hk, hcounted⟩
  · rw [if_pos ⟨hfield.waits, hret⟩]
    dsimp only
    cases res with
    | error => exact absurd rfl hres
    | byte y =>
        refine (hfield.readRequest (H := H) y).bind fun ⟨c', ret', received⟩ hsteps => ?_
        obtain ⟨hone, hret', honward⟩ := hsteps
        rcases honward with hfield' | hstop
        · exact .inl ⟨hret', hfield', hcounted.succ hone⟩
        · exact .inr ⟨.inr hstop, n + 1, Nat.le_refl _, hcounted.succ hone⟩
    | eof =>
        rw [hfield.stalled .readErr (by rw [readNbytes, hfield.readIn]; rfl)
          (by simp)]
        exact .inr ⟨.inl rfl, n, Nat.le_add_right .., hcounted⟩
    | wouldBlock =>
        rw [hfield.stalled .needMore (by rw [readNbytes, hfield.readIn]; rfl)
          (by simp)]
        exact .inl ⟨by simp, ⟨q, r, hfield⟩, hcounted⟩
  · rw [if_neg (by tauto)]
    exact .inr ⟨hstop, k, by omega, hcounted⟩

theorem mallocRequest_reqs {heap heap' : Heap σ}
    (h : Heap.mallocRequest H heap = (some q, heap')) :
    heap'.reqs q = some (H.requestOf (heap.newBlock H q sizeofRequest)) := by
  rw [mallocRequest] at h
  rcases hm : liMalloc H.alloc heap.mem sizeofRequest with ⟨_ | a, mem⟩ <;> rw [hm] at h
  · cases h
  · obtain ⟨hq, rfl⟩ := Prod.mk.inj h
    obtain rfl : a = q := Option.some.inj hq
    exact Function.update_self ..

/-- What `READ_HEADER` starts from. -/
theorem infield_of_entered {c₀ : Ctx σ} (hset : setReadHeader H c₀ = .ok c)
    (hstate : c.conn.state = .readHeader) : ∃ q r, InField c q r 0 := by
  obtain ⟨⟨c₁, ok⟩, hinit, hset⟩ := ok_of_bind_eq_ok hset
  obtain ⟨c₂, -, hinit⟩ := ok_of_bind_eq_ok hinit
  obtain ⟨c₃, -, hinit⟩ := ok_of_bind_eq_ok hinit
  rcases hm : mallocRequest H c₃.heap with ⟨_ | q, heap⟩ <;> rw [hm] at hinit
  · -- without memory for a request the connection is closed
    obtain ⟨rfl, rfl⟩ := Prod.mk.inj (Except.ok.inj hinit)
    have hclosed := (disconnectConn_effect (H := H)).of_ok hset
    rw [hclosed.state] at hstate
    cases hstate
  · have hreq := mallocRequest_reqs hm
    dsimp only at hinit
    rw [readRequest_eq hreq, ok_bind] at hinit
    obtain ⟨rfl, rfl⟩ := Prod.mk.inj (Except.ok.inj hinit)
    obtain rfl := Except.ok.inj hset
    refine ⟨q, _, rfl, rfl, Heap.writeRequest_reqs .., H.requestOf_header _, ?_, rfl,
      fun h => absurd rfl h, fun f hf => by cases hf⟩
    exact (by decide : 0 < sizeofReqHeader)

/-- The index and the counters after `n` bytes have arrived. -/
structure InPlace (c₀ : Ctx σ) (n : Nat) (x : Ctx σ × SocketState) : Prop where
  /-- The next byte goes to an index that counts the bytes of its field. -/
  index : awaited x.1.conn.state = some .read → x.2 ≠ .readErr →
    ∃ q r, x.1.conn.inReq = some q ∧ x.1.heap.reqs q = some r ∧
      r.rbytes < total r (target x.1.conn.state) ∧ before r x.1.conn.state + r.rbytes = n
  counted : ∃ k, k ≤ n ∧ CountedTo c₀ x.1 k ∧
    (awaited x.1.conn.state = some .read → x.2 ≠ .readErr → k = n)

/-- The connection is not read from any more. -/
def Stopped (x : Ctx σ × SocketState) : Prop :=
  x.2 = .readErr ∨ awaited x.1.conn.state ≠ some .read

variable {c₀ : Ctx σ} {y : Ctx σ × SocketState} {results : List ReadResult}

theorem Keeps.inPlace (h : Keeps c₀ n y) : InPlace c₀ n y := by
  rcases h with ⟨hret, ⟨q, r, hfield⟩, hcounted⟩ | ⟨hstop, k, hk, hcounted⟩
  · exact ⟨fun _ _ => ⟨q, r, hfield.inReq, hfield.req, hfield.index, hfield.received⟩,
      _, Nat.le_refl _, hcounted, fun _ _ => rfl⟩
  · exact ⟨fun hwaits hret => absurd hwaits (hstop.resolve_left hret), k, hk, hcounted,
      fun hwaits hret => absurd hwaits (hstop.resolve_left hret)⟩

theorem receive_stopped (h : Stopped y) (res : ReadResult) : receive H y res = .ok y := by
  rw [receive, if_neg]
  rcases h with h | h
  · exact fun hw => hw.2 h
  · exact fun hw => h hw.1

/-- A failed read takes one from the index. -/
theorem InField.error (c₀ : Ctx σ) (h : InField y.1 q r n) (hret : y.2 ≠ .readErr) :
    ∃ z, receive H y .error = .ok z ∧ ¬ InPlace c₀ n z := by
  have hlt := h.index
  have hsmall := total_lt h.fits
  have hne : uint32 ((r.rbytes : Int) + -1) ≠ total r (target y.1.conn.state) ∧
      uint32 ((r.rbytes : Int) + -1) ≠ r.rbytes := by
    rw [protocolMaxDataSize, protocolMaxKeySize] at hsmall
    rw [uint32]
    omega
  have hread : readNbytes y.1 (target y.1.conn.state) (total r (target y.1.conn.state))
      .error = countBytes y.1 q (-1) (total r (target y.1.conn.state)) := by
    rw [readNbytes, h.readIn]
    rfl
  rw [countBytes_eq h.req, counted, if_neg hne.1] at hread
  have hrun : receive H y .error =
      (Server.readRequest H y.1 .error >>= fun x => pure (x.1, x.2.1)) := by
    rw [receive, if_pos ⟨h.waits, hret⟩]
  rw [h.stalled _ hread (by simp), ok_bind] at hrun
  refine ⟨_, hrun, fun hplace => ?_⟩
  obtain ⟨q', r', hin, hreq, -, hbefore⟩ := hplace.index h.waits (by simp)
  obtain rfl : q = q' := Option.some.inj (h.inReq.symm.trans hin)
  obtain rfl := Option.some.inj ((Heap.writeRequest_reqs ..).symm.trans hreq)
  have hsame : before { r with rbytes := uint32 ((r.rbytes : Int) + -1) } y.1.conn.state =
      before r y.1.conn.state := by
    cases y.1.conn.state <;> rfl
  have hsum := hbefore.trans h.received.symm
  rw [hsame] at hsum
  exact hne.2 (Nat.add_left_cancel hsum)

theorem run_stopped (h : Stopped y) (p : List ReadResult) :
    run (receive H) y p = .ok y := by
  induction p with
  | nil => rfl
  | cons res p ih => rw [run_cons, receive_stopped h, ok_bind, ih]

theorem Keeps.more (h : Keeps c₀ n y) (hstop : Stopped y) (m : Nat) : Keeps c₀ (n + m) y := by
  rcases h with ⟨hret, ⟨q, r, hfield⟩, -⟩ | ⟨-, k, hk, hcounted⟩
  · exact absurd hfield.waits (hstop.resolve_left hret)
  · exact .inr ⟨hstop, k, by omega, hcounted⟩

theorem bytesIn_cons (res : ReadResult) (p : List ReadResult) :
    bytesIn (res :: p) = bytesIn [res] + bytesIn p := by
  rw [bytesIn, bytesIn, bytesIn, ← List.countP_append]
  rfl

/-- The index is right in every state that is reached, if no read fails before it. -/
theorem Keeps.iff (h : Keeps c₀ n y) (results : List ReadResult) :
    (∀ p, p <+: results →
        Post (run (Server.receive H) y p) (InPlace c₀ (n + bytesIn p)) (fun _ => False)) ↔
      ∀ p, p ++ [.error] <+: results →
        Post (run (Server.receive H) y p) Stopped (fun _ => False) := by
  induction results generalizing y n with
  | nil =>
      refine ⟨fun _ p hp => ?_, fun _ p hp => ?_⟩
      · simp at hp
      · obtain rfl := List.prefix_nil.mp hp
        exact h.inPlace
  | cons res rest ih =>
      by_cases hstop : Stopped y
      · refine ⟨fun _ p _ => ?_, fun _ p _ => ?_⟩
        · rw [run_stopped hstop]
          exact hstop
        · rw [run_stopped hstop]
          exact (h.more hstop _).inPlace
      · obtain ⟨hret, ⟨q, r, hfield⟩, -⟩ := h.resolve_right fun hs => hstop hs.1
        by_cases hres : res = .error
        · subst hres
          refine ⟨fun hall => ?_, fun hall => ?_⟩
          · obtain ⟨z, hz, hplace⟩ := hfield.error (H := H) c₀ hret
            have hone := hall [.error] ⟨rest, rfl⟩
            rw [run_cons, hz] at hone
            exact absurd hone hplace
          · exact absurd (hall [] ⟨rest, rfl⟩) hstop
        · obtain ⟨z, hz, hkeeps⟩ := (h.receive (H := H) hres).exists_ok
          refine (Iff.trans ⟨fun hall p hp => ?_, fun hall p hp => ?_⟩
            (ih hkeeps)).trans ⟨fun hall p hp => ?_, fun hall p hp => ?_⟩
          · have hone := hall (res :: p) ((List.prefix_cons_inj res).mpr hp)
            rw [run_cons, hz, bytesIn_cons, ← Nat.add_assoc] at hone
            exact hone
          · cases p with
            | nil => exact h.inPlace
            | cons res' p =>
                obtain ⟨rfl, hp'⟩ := List.cons_prefix_cons.mp hp
                rw [run_cons, hz, bytesIn_cons, ← Nat.add_assoc]
                exact hall p hp'
          · cases p with
            | nil => exact absurd (List.cons_prefix_cons.mp hp).1.symm hres
            | cons res' p =>
                obtain ⟨rfl, hp'⟩ := List.cons_prefix_cons.mp hp
                rw [run_cons, hz]
                exact hall p hp'
          · have hone := hall (res :: p) ((List.prefix_cons_inj res).mpr hp)
            rw [run_cons, hz] at hone
            exact hone

/--
The receive index, for every sequence of results: `p` is what has been read when
the index is looked at.
-/
theorem receive_in_place_iff (hset : setReadHeader H c₀ = .ok c)
    (hstate : c.conn.state = .readHeader) :
    (∀ p, p <+: results → Post (run (receive H) (c, .needMore) p)
        (InPlace c (bytesIn p)) (fun _ => False)) ↔
      ∀ p, p ++ [.error] <+: results →
        Post (run (receive H) (c, .needMore) p) Stopped (fun _ => False) := by
  have hkeeps : Keeps c 0 (c, .needMore) :=
    .inl ⟨by simp, infield_of_entered hset hstate, ⟨rfl, by simp⟩⟩
  have hiff := hkeeps.iff (H := H) results
  simp only [Nat.zero_add] at hiff
  exact hiff

/-- The structure of the first client, before it enters `READ_HEADER`. -/
def firstConn : Ctx (Finset ℕ) :=
  (makeConn (Host.lp64 Allocator.unlimited) (initState (Host.lp64 Allocator.unlimited)
    ⟨0, 2⟩ (emptyHeap ∅) (hearing .eof)) 7 (hearing .eof)).2.ctx 1

theorem receive_in_place_iff_first :
    ∃ c, setReadHeader (Host.lp64 Allocator.unlimited) firstConn = .ok c ∧
      ((∀ p, p <+: [.byte 0, .wouldBlock, .eof] →
          Post (run (receive (Host.lp64 Allocator.unlimited)) (c, .needMore) p)
            (InPlace c (bytesIn p)) (fun _ => False)) ↔
        ∀ p, p ++ [.error] <+: [.byte 0, .wouldBlock, .eof] →
          Post (run (receive (Host.lp64 Allocator.unlimited)) (c, .needMore) p)
            Stopped (fun _ => False)) :=
  ⟨_, rfl, receive_in_place_iff (show setReadHeader _ firstConn = _ from rfl) rfl⟩

/-- A read that fails first of all, and the byte after it. -/
theorem receive_out_of_place :
    ∃ c, setReadHeader (Host.lp64 Allocator.unlimited) firstConn = .ok c ∧
      run (receive (Host.lp64 Allocator.unlimited)) (c, .needMore) [.error, .byte 0] =
        .error .outOfBounds ∧
      ¬ ∀ p, p <+: [.error, .byte 0] →
        Post (run (receive (Host.lp64 Allocator.unlimited)) (c, .needMore) p)
          (InPlace c (bytesIn p)) (fun _ => False) := by
  refine ⟨_, rfl, rfl, fun hall => ?_⟩
  exact hall [.error, .byte 0] List.prefix_rfl

end Lightcache.Server
