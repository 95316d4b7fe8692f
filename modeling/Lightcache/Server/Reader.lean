import Lightcache.Server.Event
import Lightcache.Server.Interpret

/-!
# Reading a request

The memory of a connection that reads a request, and what one call of
`try_read_request` makes of it, up to the call of `execute_cmd`.  `taken` and
`nextField` are the reader without its memory.
-/

namespace Lightcache.Server

open Lightcache Lightcache.Foundation Lightcache.Hashtab Heap

variable {σ : Type} {H : Host σ}

/-! ## Fields -/

namespace Field

def get (f : Fields) : Field → Bytes
  | key => f.key
  | data => f.data
  | extra => f.extra

def put (f : Fields) (bytes : Bytes) : Field → Fields
  | key => { f with key := bytes }
  | data => { f with data := bytes }
  | extra => { f with extra := bytes }

variable {f : Fields} {r : Request} {bytes : Bytes} {fd g : Field} {p : Option Addr}
  {a : Addr}

@[simp] theorem get_put : fd.get (fd.put f bytes) = bytes := by
  cases fd <;> rfl

theorem get_put_of_ne (h : g ≠ fd) : g.get (fd.put f bytes) = g.get f := by
  cases fd <;> cases g <;> first | rfl | exact absurd rfl h

@[simp] theorem put_opcode : (fd.put f bytes).opcode = f.opcode := by
  cases fd <;> rfl

@[simp] theorem ptr_setPtr : fd.ptr (fd.setPtr r p) = p := by
  cases fd <;> rfl

theorem ptr_setPtr_of_ne (h : g ≠ fd) : g.ptr (fd.setPtr r p) = g.ptr r := by
  cases fd <;> cases g <;> first | rfl | exact absurd rfl h

@[simp] theorem setPtr_header : (fd.setPtr r p).header = r.header := by
  cases fd <;> rfl

@[simp] theorem setPtr_canFree : (fd.setPtr r p).canFree = r.canFree := by
  cases fd <;> rfl

@[simp] theorem setPtr_rbytes : (fd.setPtr r p).rbytes = r.rbytes := by
  cases fd <;> rfl

@[simp] theorem length_setPtr : g.length (fd.setPtr r p) = g.length r := by
  cases fd <;> cases g <;> rfl

theorem setPtr_buffers (h : fd.ptr r = none) :
    (fd.setPtr r p).buffers = ptrBlocks p + r.buffers := by
  cases fd <;> simp only [ptr] at h <;>
    simp only [setPtr, Request.buffers, h, ptrBlocks_none] <;> abel

theorem mem_buffers (h : fd.ptr r = some a) : a ∈ r.buffers := by
  cases fd <;> simp only [ptr] at h <;> simp [Request.buffers, h]

/-- No two fields share a buffer. -/
theorem ptr_ne (hnodup : r.buffers.Nodup) (h : fd.ptr r = some a) (hne : g ≠ fd) :
    g.ptr r ≠ some a := by
  intro hg
  rw [Request.buffers] at hnodup
  cases fd <;> cases g <;> simp only [ptr] at h hg <;>
    first
    | exact absurd rfl hne
    | (rw [h, hg] at hnodup
       simp [Multiset.nodup_add] at hnodup)

end Field

/-! ## The reader without its memory -/

/-- Where a state puts the next byte: the header, or a field. -/
def target : ConnState → Option Field
  | .readKey => some .key
  | .readData => some .data
  | .readExtra => some .extra
  | _ => none

def total (r : Request) : Option Field → Nat
  | none => sizeofReqHeader
  | some fd => fd.length r

/-- The byte goes to `bytes[rbytes]`. -/
def stored (t : Option Field) (r : Request) (f : Fields) (b : UInt8) :
    Request × Fields :=
  match t with
  | none =>
      let r := { r with header := r.header.set r.rbytes b }
      (r, { f with opcode := r.opcode })
  | some fd => (r, fd.put f ((fd.get f).set r.rbytes b))

/-- The end of `read_nbytes`. -/
def counted (t : Option Field) (r : Request) (n : Int) : Request × SocketState :=
  if uint32 (r.rbytes + n) = total r t then ({ r with rbytes := 0 }, .readCompleted)
  else ({ r with rbytes := uint32 (r.rbytes + n) }, .needMore)

/-- One call of `read_nbytes`. -/
def taken (t : Option Field) (r : Request) (f : Fields) :
    ReadResult → Request × Fields × SocketState
  | .byte b =>
      let (r, f) := stored t r f b
      let (r, ret) := counted t r 1
      (r, f, ret)
  | .error =>
      let (r, ret) := counted t r (-1)
      (r, f, ret)
  | .eof => (r, f, .readErr)
  | .wouldBlock => (r, f, .needMore)

/-- The trace of the connection after one call of `read`. -/
def heard (conn : Conn) : ReadResult → Conn
  | .byte _ =>
      { conn with trace := { conn.trace with consumed := conn.trace.consumed + 1 } }
  | _ => conn

/-- The field that a state goes on to, when it has read its own. -/
def following : ConnState → Option Field
  | .readHeader => some .key
  | .readKey => some .data
  | .readData => some .extra
  | _ => none

/-- A field that is empty is not read. -/
def nextField (r : Request) (state : ConnState) : Option Field :=
  (following state).filter fun g => g.length r ≠ 0

/-! ## The memory of a reader -/

/-- A connection and the request `q` it owns, beside a frame. -/
structure Holding (H : Host σ) (c : Ctx σ) (q : Addr) (r : Request) (f : Fields)
    (Q B W : Multiset Addr) : Prop where
  store : Store H c.heap c.cache ({q} + Q) (r.buffers + B) W
  inReq : c.conn.inReq = some q
  req : c.heap.reqs q = some r
  own : r.canFree = true
  header : r.header.length = sizeofReqHeader
  opcode : f.opcode = r.opcode
  fields : ∀ fd : Field, FieldIs c.heap (fd.ptr r) (fd.length r) (fd.get f)

/-- `c'` is `c` up to its own connection and memory. -/
structure Beside (c c' : Ctx σ) (Q B : Multiset Addr) : Prop where
  cache : c'.cache = c.cache
  settings : c'.settings = c.settings
  agree : Agree (cachedReqs c.cache.live + Q)
    (cachedBufs c.heap c.cache.live + B) c.heap c'.heap

section Holding

variable {c c' c'' : Ctx σ} {q a : Addr} {r r' : Request} {f f' : Fields}
  {Q B W : Multiset Addr} {fd : Field} {bytes : Bytes}

theorem Beside.refl (c : Ctx σ) (Q B : Multiset Addr) : Beside c c Q B :=
  ⟨rfl, rfl, .refl ..⟩

theorem Beside.trans (h₁ : Beside c c' Q B) (h₂ : Beside c' c'' Q B) :
    Beside c c'' Q B where
  cache := h₂.cache.trans h₁.cache
  settings := h₂.settings.trans h₁.settings
  agree := by
    have h := h₂.agree
    rw [h₁.cache, cachedBufs_congr fun q hq =>
      h₁.agree.reqs q (Multiset.mem_add.mpr (.inl hq))] at h
    exact h₁.agree.trans h

namespace Holding

theorem readIn (hh : Holding H c q r f Q B W) : c.readIn = .ok (q, r) := by
  rw [Ctx.readIn, hh.inReq]
  dsimp only
  rw [readRequest_eq hh.req]
  rfl

theorem notMem (hh : Holding H c q r f Q B W) : q ∉ cachedReqs c.cache.live + Q := by
  have := hh.store.typed.reqs_nodup
  rw [Multiset.singleton_add, Multiset.add_cons, Multiset.nodup_cons] at this
  exact this.1

theorem notMem_buf (hh : Holding H c q r f Q B W) (ha : a ∈ r.buffers) :
    a ∉ cachedBufs c.heap c.cache.live + B := by
  have := hh.store.typed.bufs_nodup
  rw [add_left_comm] at this
  exact Multiset.disjoint_left.mp (Multiset.nodup_add.mp this).2.2 ha

theorem buffers_nodup (hh : Holding H c q r f Q B W) : r.buffers.Nodup := by
  have := hh.store.typed.bufs_nodup
  rw [add_left_comm] at this
  exact (Multiset.nodup_add.mp this).1

/-- The request object takes on a new value with the same buffers. -/
theorem write (hh : Holding H c q r f Q B W) (r' : Request) (f' : Fields)
    (hown : r'.canFree = true)
    (hheader : r'.header.length = sizeofReqHeader)
    (hbufs : r'.buffers = r.buffers) (hopcode : f'.opcode = r'.opcode)
    (hfields : ∀ fd : Field, FieldIs c.heap (fd.ptr r') (fd.length r') (fd.get f')) :
    Holding H { c with heap := c.heap.writeRequest q r' } q r' f' Q B W ∧
      Beside c { c with heap := c.heap.writeRequest q r' } Q B := by
  have hq := hh.notMem
  refine ⟨⟨?_, hh.inReq, writeRequest_reqs .., hown, hheader, hopcode, hfields⟩,
    rfl, rfl, agree_writeRequest hq⟩
  rw [hbufs]
  exact hh.store.frame (hh.store.typed.writeRequest (by simp) _)
    (agree_writeRequest fun hmem => hq (Multiset.mem_add.mpr (.inl hmem)))

/-- One of its buffers takes on a new value. -/
theorem writeField (hh : Holding H c q r f Q B W) (hptr : fd.ptr r = some a)
    (hlen : bytes.length = fd.length r) (hne : bytes ≠ []) :
    Holding H { c with heap := c.heap.writeBytes a (bytes ++ [0]) } q r
        (fd.put f bytes) Q B W ∧
      Beside c { c with heap := c.heap.writeBytes a (bytes ++ [0]) } Q B := by
  have ha := Field.mem_buffers hptr
  have hfresh := hh.notMem_buf ha
  refine ⟨⟨?_, hh.inReq, hh.req, hh.own, hh.header, ?_, fun g => ?_⟩,
    rfl, rfl, agree_writeBytes hfresh⟩
  · exact hh.store.frame
      (hh.store.typed.writeBytes (by simp [ha]) _)
      (agree_writeBytes fun hmem => hfresh (Multiset.mem_add.mpr (.inl hmem)))
  · rw [Field.put_opcode]
    exact hh.opcode
  · by_cases hg : g = fd
    · subst hg
      rw [Field.get_put]
      exact .inr ⟨a, hptr, writeBytes_bufs .., hlen, hne⟩
    · rw [Field.get_put_of_ne hg]
      have hother := Field.ptr_ne hh.buffers_nodup hptr hg
      rcases hh.fields g with hnone | ⟨b, hb, hbuf, hrest⟩
      · exact .inl hnone
      · refine .inr ⟨b, hb, ?_, hrest⟩
        have hba : b ≠ a := fun hba => hother (hba ▸ hb)
        rw [← hbuf]
        exact Function.update_of_ne hba ..

end Holding

/-! ## `read_nbytes` -/

/-- The state of the reader fits what it has received so far. -/
def Ready (t : Option Field) (f : Fields) : Prop :=
  match t with
  | none => ∀ fd : Field, fd.get f = []
  | some fd => fd.get f ≠ []

variable {t : Option Field} {res : ReadResult}

theorem total_stored (b : UInt8) : total (stored t r f b).1 t = total r t := by
  cases t <;> rfl

theorem Holding.storeByte (hh : Holding H c q r f Q B W) (ht : Ready t f)
    (hr : r.rbytes ≠ total r t) (b : UInt8) :
    Post (storeByte c q r b t)
      (fun heap => (Holding H { c with heap := heap } q (stored t r f b).1
          (stored t r f b).2 Q B W ∧ Beside c { c with heap := heap } Q B) ∧
        heap.mem = c.heap.mem)
      (fun e => e = .outOfBounds ∧ total r t < r.rbytes) := by
  cases t with
  | none =>
      rw [Server.storeByte]
      by_cases hlt : r.rbytes < r.header.length
      · rw [if_pos hlt]
        refine ⟨hh.write _ _ hh.own (by simpa using hh.header) rfl rfl fun fd => .inl ?_, rfl⟩
        rcases hh.fields fd with hnone | ⟨a, -, -, -, hne⟩
        · refine ⟨?_, ht fd⟩
          cases fd <;> exact hnone.1
        · exact absurd (ht fd) hne
      · rw [if_neg hlt]
        rw [hh.header] at hlt
        exact ⟨rfl, lt_of_le_of_ne (Nat.le_of_not_lt hlt) (Ne.symm hr)⟩
  | some fd =>
      obtain ⟨a, hptr, hbuf, hlen⟩ := (hh.fields fd).present ht
      rw [Server.storeByte, hptr]
      dsimp only
      rw [hbuf]
      dsimp only
      change r.rbytes ≠ fd.length r at hr
      by_cases hlt : r.rbytes < (fd.get f ++ [0]).length
      · rw [if_pos hlt]
        have hlt' : r.rbytes < (fd.get f).length := by
          rw [List.length_append, hlen] at hlt
          rw [hlen]
          exact lt_of_le_of_ne (Nat.le_of_lt_succ hlt) hr
        rw [List.set_append_left _ _ hlt']
        refine ⟨hh.writeField hptr (by rw [List.length_set, hlen]) ?_, rfl⟩
        exact List.ne_nil_of_length_pos (by rw [List.length_set]; omega)
      · rw [if_neg hlt]
        rw [List.length_append, hlen] at hlt
        exact ⟨rfl, Nat.lt_of_lt_of_le (Nat.lt_succ_self _) (Nat.le_of_not_lt hlt)⟩

theorem Holding.countBytes (hh : Holding H c q r f Q B W) (t : Option Field) (n : Int) :
    ∃ c', countBytes c q n (total r t) = .ok (c', (counted t r n).2) ∧
      Holding H c' q (counted t r n).1 f Q B W ∧ Beside c c' Q B ∧
      c'.conn = c.conn ∧ c'.heap.mem = c.heap.mem := by
  have hwrite : ∀ n, Holding H { c with
      heap := c.heap.writeRequest q { r with rbytes := n } } q
        { r with rbytes := n } f Q B W ∧
      Beside c { c with heap := c.heap.writeRequest q { r with rbytes := n } } Q B :=
    fun n => hh.write _ _ hh.own hh.header rfl hh.opcode fun fd => by
      cases fd
      · exact hh.fields .key
      · exact hh.fields .data
      · exact hh.fields .extra
  rw [Server.countBytes, readRequest_eq hh.req, ok_bind, counted]
  dsimp only
  by_cases hdone : uint32 (r.rbytes + n) = total r t
  · rw [if_pos hdone, if_pos hdone]
    obtain ⟨hhold, hbeside⟩ := hwrite 0
    exact ⟨_, rfl, ⟨hhold.store, hhold.inReq, hhold.req, hhold.own, hhold.header,
      hhold.opcode, hhold.fields⟩, ⟨rfl, rfl, hbeside.agree⟩, rfl, rfl⟩
  · rw [if_neg hdone, if_neg hdone]
    obtain ⟨hhold, hbeside⟩ := hwrite (uint32 (r.rbytes + n))
    exact ⟨_, rfl, ⟨hhold.store, hhold.inReq, hhold.req, hhold.own, hhold.header,
      hhold.opcode, hhold.fields⟩, ⟨rfl, rfl, hbeside.agree⟩, rfl, rfl⟩

theorem Holding.readNbytes (hh : Holding H c q r f Q B W) (ht : Ready t f)
    (hr : r.rbytes ≠ total r t) (res : ReadResult) :
    Post (readNbytes c t (total r t) res)
      (fun x => x.2 = (taken t r f res).2.2 ∧
        Holding H x.1 q (taken t r f res).1 (taken t r f res).2.1 Q B W ∧
        Beside c x.1 Q B ∧ x.1.conn = heard c.conn res ∧ x.1.heap.mem = c.heap.mem)
      (fun e => e = .outOfBounds ∧ total r t < r.rbytes) := by
  rw [Server.readNbytes, hh.readIn, ok_bind]
  cases res with
  | eof => exact ⟨rfl, hh, .refl .., rfl, rfl⟩
  | wouldBlock => exact ⟨rfl, hh, .refl .., rfl, rfl⟩
  | error =>
      obtain ⟨c', hc', hhold, hbeside, hconn⟩ := hh.countBytes t (-1)
      dsimp only
      rw [hc']
      exact ⟨rfl, hhold, hbeside, hconn⟩
  | byte b =>
      dsimp only
      refine (hh.storeByte ht hr b).bind fun heap ⟨⟨hhold, hbeside⟩, hmem⟩ => ?_
      have hmid : Holding H { c with
          heap := heap
          conn := heard c.conn (.byte b) } q (stored t r f b).1 (stored t r f b).2 Q B W :=
        ⟨hhold.store, hhold.inReq, hhold.req, hhold.own, hhold.header, hhold.opcode,
          hhold.fields⟩
      obtain ⟨c', hc', hhold', hbeside', hconn, hmem'⟩ := hmid.countBytes t 1
      rw [total_stored] at hc'
      have hfirst : Beside c { c with
          heap := heap
          conn := heard c.conn (.byte b) } Q B := ⟨rfl, rfl, hbeside.agree⟩
      dsimp only [heard] at hc'
      rw [hc']
      exact ⟨rfl, hhold', hfirst.trans hbeside', hconn, hmem'.trans hmem⟩

/-! ## `try_read_request` -/

theorem Holding.send (hh : Holding H c q r f Q B W) (code : Code) :
    ∃ c', sendResponse c code = .ok c' ∧ Holding H c' q r f Q B W ∧
      Beside c c' Q B ∧ c'.conn = queued c.conn r.opcode none 0 code true :=
  ⟨_, sendResponse_eq hh.inReq hh.req code, ⟨hh.store, hh.inReq, hh.req, hh.own,
    hh.header, hh.opcode, hh.fields⟩, ⟨rfl, rfl, .refl ..⟩, rfl⟩

/-- The buffer for the next field. -/
theorem Holding.setReadField (hh : Holding H c q r f Q B W) (hempty : fd.get f = [])
    (hlen : fd.length r ≠ 0) :
    ∃ c', setReadField H c fd = .ok c' ∧ Beside c c' Q B ∧
      ((¬ H.alloc.NeverFails ∧ (liMalloc H.alloc c.heap.mem (fd.length r + 1)).1 = none ∧
          Holding H c' q r f Q B W ∧
          c'.conn = queued c.conn r.opcode none 0 .outOfMemory true) ∨
        ∃ a bytes, bytes.length = fd.length r ∧
          Holding H c' q (fd.setPtr r (some a)) (fd.put f bytes) Q B W ∧
          c'.conn = { c.conn with state := fd.state }) := by
  have hm := hh.store.mallocBytes (n := fd.length r + 1) (Nat.succ_pos _)
  have hptr : fd.ptr r = none := (hh.fields fd).eq_none.mpr hempty
  rw [Server.setReadField, hh.readIn, ok_bind]
  dsimp only
  rcases hrun : c.heap.mallocBytes H (fd.length r + 1) with ⟨_ | a, heap⟩
  · rw [hrun] at hm
    obtain ⟨hstore, hfails, hagree⟩ := hm
    have hmid : Holding H { c with heap := heap } q r f Q B W := by
      refine ⟨hstore, hh.inReq, ?_, hh.own, hh.header, hh.opcode, fun g => ?_⟩
      · rw [hagree.reqs q (by simp)]
        exact hh.req
      · rcases hh.fields g with hnone | ⟨b, hb, hbuf, hrest⟩
        · exact .inl hnone
        · refine .inr ⟨b, hb, ?_, hrest⟩
          rw [hagree.bufs b (by simp [Field.mem_buffers hb])]
          exact hbuf
    obtain ⟨c', hc', hhold, hbeside, hconn⟩ := hmid.send .outOfMemory
    have hfirst : Beside c { c with heap := heap } Q B :=
      ⟨rfl, rfl, hagree.mono (add_le_add_right (Multiset.le_add_left ..) _)
        (add_le_add_right (Multiset.le_add_left ..) _)⟩
    have hrefused : (liMalloc H.alloc c.heap.mem (fd.length r + 1)).1 = none := by
      rw [← mallocBytes_fst, hrun]
    exact ⟨c', hc', hfirst.trans hbeside, .inl ⟨hfails, hrefused, hhold, hconn⟩⟩
  · rw [hrun] at hm
    obtain ⟨hstore, hbuf, hagree⟩ := hm
    obtain ⟨bytes, hbytes⟩ : ∃ bytes, bytes =
        (c.heap.newBlock H a (fd.length r + 1)).take (fd.length r) := ⟨_, rfl⟩
    have hblen : bytes.length = fd.length r := by
      rw [hbytes, List.length_take, newBlock_length]
      omega
    have hset : (c.heap.newBlock H a (fd.length r + 1)).set (fd.length r) 0 =
        bytes ++ [0] := by
      rw [hbytes, List.set_eq_take_append_cons_drop, if_pos (by simp),
        List.drop_eq_nil_of_le (by simp)]
    have hcached : cachedBufs heap c.cache.live = cachedBufs c.heap c.cache.live :=
      cachedBufs_congr fun q hq => hagree.reqs q (Multiset.mem_add.mpr (.inl hq))
    have hfresh : a ∉ cachedBufs c.heap c.cache.live + (r.buffers + B) := by
      have := hstore.typed.bufs_nodup
      rw [hcached, Multiset.singleton_add, Multiset.add_cons, Multiset.nodup_cons] at this
      exact this.1
    have hq := hh.notMem
    refine ⟨{ c with
      heap := (heap.writeRequest q (fd.setPtr r (some a))).writeBytes a (bytes ++ [0])
      conn := { c.conn with state := fd.state } }, ?_, ⟨rfl, rfl, ?_⟩,
      .inr ⟨a, bytes, hblen, ⟨?_, hh.inReq, ?_, ?_, ?_, ?_, fun g => ?_⟩, rfl⟩⟩
    · dsimp only
      rw [hbuf, Option.getD_some, hset]
      rfl
    · refine (hagree.mono (add_le_add_right (Multiset.le_add_left ..) _)
        (add_le_add_right (Multiset.le_add_left ..) _)).trans
        ((agree_writeRequest hq).trans (agree_writeBytes fun hmem => hfresh ?_))
      rw [add_left_comm]
      exact Multiset.mem_add.mpr (.inr hmem)
    · rw [Field.setPtr_buffers hptr, ptrBlocks_some, add_assoc]
      refine hstore.frame ((hstore.typed.writeRequest (by simp) _).writeBytes ?_ _)
        ((agree_writeRequest fun hmem => hq (Multiset.mem_add.mpr (.inl hmem))).trans
          (agree_writeBytes fun hmem => hfresh ?_))
      · simp
      · rw [hcached] at hmem
        exact Multiset.mem_add.mpr (.inl hmem)
    · exact writeRequest_reqs ..
    · rw [Field.setPtr_canFree]
      exact hh.own
    · rw [Field.setPtr_header]
      exact hh.header
    · rw [Field.put_opcode, hh.opcode]
      cases fd <;> rfl
    · rw [Field.length_setPtr]
      by_cases hg : g = fd
      · subst hg
        rw [Field.get_put, Field.ptr_setPtr]
        exact .inr ⟨a, rfl, writeBytes_bufs .., hblen,
          List.ne_nil_of_length_pos (by omega)⟩
      · rw [Field.get_put_of_ne hg, Field.ptr_setPtr_of_ne hg]
        rcases hh.fields g with hnone | ⟨b, hb, hbbuf, hrest⟩
        · exact .inl hnone
        · refine .inr ⟨b, hb, ?_, hrest⟩
          have hmem : b ∈ cachedBufs c.heap c.cache.live + (r.buffers + B) := by
            simp [Field.mem_buffers hb]
          have hba : b ≠ a := fun hba => hfresh (hba ▸ hmem)
          rw [← hbbuf, ← hagree.bufs b hmem]
          exact Function.update_of_ne hba ..

/-- What a connection has received when it waits for more of a request. -/
def Shape (f : Fields) : ConnState → Prop
  | .readHeader => ∀ fd : Field, fd.get f = []
  | .readKey => f.key ≠ [] ∧ f.data = [] ∧ f.extra = []
  | .readData => f.key ≠ [] ∧ f.data ≠ [] ∧ f.extra = []
  | .readExtra => f.key ≠ [] ∧ f.data ≠ [] ∧ f.extra ≠ []
  | _ => False

structure Reading (conn : Conn) (r : Request) (f : Fields) : Prop where
  interest : conn.interest = some .read
  sdata : conn.out.sdata = none
  shape : Shape f conn.state
  small : conn.state ≠ .readHeader → r.dataLength < protocolMaxDataSize
  rbytes : r.rbytes ≠ total r (target conn.state)

/-- The lengths are converted when the header is complete. -/
def settled (state : ConnState) (r : Request) : Request :=
  if state = .readHeader then convertHeader r else r

/-- The request and its connection after one call of `try_read_request`. -/
inductive Reads (H : Host σ) (mem : σ) (conn : Conn) (r : Request) (f : Fields)
    (res : ReadResult) : Request → Fields → Conn → SocketState → Bool → Prop
  | more {r₁ f₁ ret} (hret : ret ≠ .readCompleted)
      (step : taken (target conn.state) r f res = (r₁, f₁, ret)) :
      Reads H mem conn r f res r₁ f₁ (heard conn res) ret false
  | refused {r₁ f₁} (state : conn.state = .readHeader)
      (step : taken (target conn.state) r f res = (r₁, f₁, .readCompleted))
      (large : TooLarge (convertHeader r₁)) :
      Reads H mem conn r f res (convertHeader r₁) f₁
        (queued (heard conn res) r₁.opcode none 0 .invalidParamSize true) .failed false
  | exhausted {r₁ f₁ g}
      (step : taken (target conn.state) r f res = (r₁, f₁, .readCompleted))
      (fits : conn.state = .readHeader → ¬ TooLarge (convertHeader r₁))
      (next : nextField (settled conn.state r₁) conn.state = some g)
      (fails : ¬ H.alloc.NeverFails)
      (refused : (liMalloc H.alloc mem (g.length (settled conn.state r₁) + 1)).1 = none) :
      Reads H mem conn r f res (settled conn.state r₁) f₁
        (queued (heard conn res) (settled conn.state r₁).opcode none 0 .outOfMemory
          true) .readCompleted false
  | field {r₁ f₁ g a bytes}
      (step : taken (target conn.state) r f res = (r₁, f₁, .readCompleted))
      (fits : conn.state = .readHeader → ¬ TooLarge (convertHeader r₁))
      (next : nextField (settled conn.state r₁) conn.state = some g)
      (length : bytes.length = g.length (settled conn.state r₁)) :
      Reads H mem conn r f res (g.setPtr (settled conn.state r₁) (some a)) (g.put f₁ bytes)
        { heard conn res with state := g.state } .readCompleted false
  | received {r₁ f₁}
      (step : taken (target conn.state) r f res = (r₁, f₁, .readCompleted))
      (fits : conn.state = .readHeader → ¬ TooLarge (convertHeader r₁))
      (next : nextField (settled conn.state r₁) conn.state = none) :
      Reads H mem conn r f res (settled conn.state r₁) f₁
        { heard conn res with state := .cmdReceived } .readCompleted true

theorem Reads.trace {conn conn₁ : Conn} {r₁ : Request} {f₁ : Fields} {ret : SocketState}
    {received : Bool} {mem : σ} (h : Reads H mem conn r f res r₁ f₁ conn₁ ret received) :
    conn₁.trace = (heard conn res).trace := by
  cases h <;> rfl

/-- Nothing is executed or written by a call of `read`. -/
theorem heard_trace (conn : Conn) (res : ReadResult) :
    (heard conn res).trace.executed = conn.trace.executed ∧
      (heard conn res).trace.written = conn.trace.written := by
  cases res <;> exact ⟨rfl, rfl⟩

/-- What holds of the connection after the call. -/
def ReadPost (H : Host σ) (c : Ctx σ) (q : Addr) (r : Request) (f : Fields)
    (res : ReadResult) (Q B W : Multiset Addr) (x : Ctx σ × SocketState × Bool) :
    Prop :=
  ∃ r₁ f₁, Reads H c.heap.mem c.conn r f res r₁ f₁ x.1.conn x.2.1 x.2.2 ∧
    Holding H x.1 q r₁ f₁ Q B W ∧ Beside c x.1 Q B

/-- From one field to the next, or to `execute_cmd`. -/
theorem Holding.advance {r₁ : Request} {f₁ : Fields} {g : Field}
    (step : taken (target c.conn.state) r f res = (r₁, f₁, .readCompleted))
    (fits : c.conn.state = .readHeader → ¬ TooLarge (convertHeader r₁))
    (hfollow : following c.conn.state = some g) (hempty : g.get f₁ = [])
    (hh : Holding H c' q (settled c.conn.state r₁) f₁ Q B W) (hb : Beside c c' Q B)
    (hconn : c'.conn = heard c.conn res) (hmem : c'.heap.mem = c.heap.mem) :
    Post (if g.length (settled c.conn.state r₁) = 0 then .ok (setCmdReceived c')
      else do
        let c ← Server.setReadField H c' g
        return (c, .readCompleted, false)) (ReadPost H c q r f res Q B W)
      (fun _ => False) := by
  by_cases hlen : g.length (settled c.conn.state r₁) = 0
  · have hnext : nextField (settled c.conn.state r₁) c.conn.state = none := by
      simp [nextField, hfollow, hlen]
    rw [if_pos hlen]
    refine ⟨_, _, ?_, ⟨hh.store, hh.inReq, hh.req, hh.own, hh.header, hh.opcode,
      hh.fields⟩, ⟨hb.cache, hb.settings, hb.agree⟩⟩
    rw [setCmdReceived, Ctx.withConn, hconn]
    exact .received step fits hnext
  · have hnext : nextField (settled c.conn.state r₁) c.conn.state = some g := by
      simp [nextField, hfollow, hlen]
    rw [if_neg hlen]
    obtain ⟨c'', hc'', hb', hcases⟩ := hh.setReadField hempty hlen
    rw [hc'', ok_bind]
    rcases hcases with ⟨hfails, hrefused, hh', hconn'⟩ | ⟨a, bytes, hlength, hh', hconn'⟩
    · refine ⟨_, _, ?_, hh', hb.trans hb'⟩
      rw [hconn', hconn]
      exact .exhausted step fits hnext hfails (hmem ▸ hrefused)
    · refine ⟨_, _, ?_, hh', hb.trans hb'⟩
      rw [hconn', hconn]
      exact .field step fits hnext hlength

theorem taken_field (fd : Field) (r : Request) (f : Fields) (res : ReadResult) :
    ∃ bytes, (taken (some fd) r f res).2.1 = fd.put f bytes := by
  have hself : fd.put f (fd.get f) = f := by cases fd <;> rfl
  cases res with
  | byte b => exact ⟨(fd.get f).set r.rbytes b, rfl⟩
  | _ => exact ⟨fd.get f, hself.symm⟩

theorem Holding.readField {next : Option Field} (hh : Holding H c q r f Q B W)
    (htarget : target c.conn.state = some fd) (hfollow : following c.conn.state = next)
    (hstate : c.conn.state ≠ .readHeader) (hready : fd.get f ≠ [])
    (hempty : ∀ g, next = some g → g ≠ fd ∧ g.get f = [])
    (hr : r.rbytes ≠ fd.length r) :
    Post (Server.readField H c fd next res) (ReadPost H c q r f res Q B W)
      (fun e => e = .outOfBounds ∧ fd.length r < r.rbytes) := by
  rw [Server.readField, hh.readIn, ok_bind]
  dsimp only
  refine (Holding.readNbytes (t := some fd) hh hready hr res).bind
    fun ⟨c₁, ret⟩ ⟨hret, hh₁, hb, hconn, hmem⟩ => ?_
  rw [← htarget] at hret hh₁
  dsimp only at hret hconn hmem ⊢
  by_cases hdone : ret ≠ .readCompleted
  · rw [if_pos hdone]
    refine ⟨_, _, ?_, hh₁, hb⟩
    rw [hconn, hret]
    exact .more (hret ▸ hdone) rfl
  · rw [if_neg hdone]
    have hdone' := not_not.mp hdone
    have hstep : taken (target c.conn.state) r f res =
        ((taken (target c.conn.state) r f res).1, (taken (target c.conn.state) r f res).2.1,
          .readCompleted) := by
      rw [← hdone', hret]
    have hsettled : ∀ r₁, settled c.conn.state r₁ = r₁ := fun r₁ => if_neg hstate
    rw [hh₁.readIn, ok_bind]
    dsimp only
    cases next with
    | none =>
        refine ⟨_, _, ?_, ⟨hh₁.store, hh₁.inReq, hh₁.req, hh₁.own, hh₁.header,
          hh₁.opcode, hh₁.fields⟩, ⟨hb.cache, hb.settings, hb.agree⟩⟩
        have := @Reads.received σ H c.heap.mem _ _ _ _ _ _ hstep (fun h => absurd h hstate)
          (by simp [nextField, hfollow])
        rw [hsettled] at this
        rw [setCmdReceived, Ctx.withConn, hconn]
        exact this
    | some g =>
        have hg : g.get (taken (target c.conn.state) r f res).2.1 = [] := by
          obtain ⟨bytes, hbytes⟩ := taken_field fd r f res
          rw [htarget, hbytes, Field.get_put_of_ne (hempty g rfl).1]
          exact (hempty g rfl).2
        have := Holding.advance hstep (fun h => absurd h hstate) hfollow hg
          (by rw [hsettled]; exact hh₁) hb hconn hmem
        rw [hsettled] at this
        rw [hdone']
        exact this.mono (fun _ h => h) fun _ => False.elim

theorem Holding.readHeader (hh : Holding H c q r f Q B W)
    (hstate : c.conn.state = .readHeader) (hready : ∀ fd : Field, fd.get f = [])
    (hr : r.rbytes ≠ sizeofReqHeader) :
    Post (Server.readHeader H c res) (ReadPost H c q r f res Q B W)
      (fun e => e = .outOfBounds ∧ sizeofReqHeader < r.rbytes) := by
  have htarget : target c.conn.state = none := by rw [hstate]; rfl
  rw [Server.readHeader]
  refine (Holding.readNbytes (t := none) hh hready hr res).bind
    fun ⟨c₁, ret⟩ ⟨hret, hh₁, hb, hconn, hmem⟩ => ?_
  rw [← htarget] at hret hh₁
  dsimp only at hret hconn hmem ⊢
  by_cases hdone : ret ≠ .readCompleted
  · rw [if_pos hdone]
    refine ⟨_, _, ?_, hh₁, hb⟩
    rw [hconn, hret]
    exact .more (hret ▸ hdone) rfl
  · rw [if_neg hdone]
    have hdone' := not_not.mp hdone
    obtain ⟨r₁, f₁, ret', hstep⟩ : ∃ r₁ f₁ ret',
        taken (target c.conn.state) r f res = (r₁, f₁, ret') := ⟨_, _, _, rfl⟩
    rw [hstep] at hret hh₁
    obtain rfl : ret' = .readCompleted := hret.symm.trans hdone'
    have hempty : ∀ fd : Field, fd.get f₁ = [] := by
      intro fd
      have hf : (taken (target c.conn.state) r f res).2.1 = f₁ := by rw [hstep]
      rw [htarget] at hf
      rw [← hf, ← hready fd]
      cases res <;> cases fd <;> rfl
    have hconv : convertHeader r₁ = settled c.conn.state r₁ := (if_pos hstate).symm
    obtain ⟨hh₂, hb₂⟩ := hh₁.write (convertHeader r₁) f₁ hh₁.own
      hh₁.header rfl hh₁.opcode fun fd => .inl ⟨by
        have := (hh₁.fields fd).eq_none.mpr (hempty fd)
        cases fd <;> exact this, hempty fd⟩
    rw [hh₁.readIn, ok_bind]
    dsimp only
    by_cases hlarge : TooLarge (convertHeader r₁)
    · rw [if_pos hlarge]
      obtain ⟨c₂, hc₂, hh₃, hb₃, hconn₃⟩ := hh₂.send .invalidParamSize
      rw [hc₂, ok_bind]
      refine ⟨_, _, ?_, hh₃, (hb.trans hb₂).trans hb₃⟩
      rw [hconn₃]
      dsimp only
      rw [hconn]
      exact .refused hstate hstep hlarge
    · rw [if_neg hlarge]
      have hfollow : following c.conn.state = some .key := by rw [hstate]; rfl
      rw [hconv] at hh₂ hb₂ ⊢
      rw [hdone']
      exact (Holding.advance hstep (fun _ => hlarge) hfollow (hempty .key) hh₂
        (hb.trans hb₂) hconn hmem).mono (fun _ h => h) fun _ => False.elim

/-- One call of `try_read_request`, for every byte and every failure. -/
theorem Holding.readRequest (hh : Holding H c q r f Q B W) (hrd : Reading c.conn r f)
    (res : ReadResult) :
    Post (Server.readRequest H c res) (ReadPost H c q r f res Q B W)
      (fun e => e = .outOfBounds ∧ total r (target c.conn.state) < r.rbytes) := by
  have hshape := hrd.shape
  have hr := hrd.rbytes
  have hassert : ∀ fd : Field, fd.get f ≠ [] → assertField c fd = .ok () := by
    intro fd hne
    obtain ⟨a, hptr, -, hlen⟩ := (hh.fields fd).present hne
    rw [assertField, hh.inReq]
    dsimp only
    rw [readRequest_eq hh.req, ok_bind, if_neg]
    rw [hptr, ← hlen]
    simp [hne]
  rw [Server.readRequest]
  cases hstate : c.conn.state with
  | readHeader =>
      rw [hstate] at hshape hr
      exact hh.readHeader hstate hshape hr
  | readKey =>
      rw [hstate] at hshape hr
      dsimp only
      rw [hassert .key hshape.1, ok_bind]
      refine hh.readField (by rw [hstate]; rfl) (by rw [hstate]; rfl) (by simp [hstate])
        hshape.1 (fun g hg => ?_) hr
      obtain rfl := Option.some.inj hg
      exact ⟨by simp, hshape.2.1⟩
  | readData =>
      rw [hstate] at hshape hr
      dsimp only
      rw [hassert .data hshape.2.1, ok_bind]
      refine hh.readField (by rw [hstate]; rfl) (by rw [hstate]; rfl) (by simp [hstate])
        hshape.2.1 (fun g hg => ?_) hr
      obtain rfl := Option.some.inj hg
      exact ⟨by simp, hshape.2.2⟩
  | readExtra =>
      rw [hstate] at hshape hr
      exact hh.readField (by rw [hstate]; rfl) (by rw [hstate]; rfl) (by simp [hstate])
        hshape.2.2 (by simp) hr
  | _ =>
      rw [hstate] at hshape
      exact hshape.elim

/-! ## The next state of the reader -/

theorem taken_shape {state : ConnState} (hshape : Shape f state) (res : ReadResult) :
    Shape (taken (target state) r f res).2.1 state := by
  have hset : ∀ (bytes : Bytes) i b, bytes ≠ [] → bytes.set i b ≠ [] := by
    simp
  cases res with
  | byte b =>
      cases state with
      | readHeader =>
          intro fd
          rw [← hshape fd]
          cases fd <;> rfl
      | readKey => exact ⟨hset _ _ _ hshape.1, hshape.2⟩
      | readData => exact ⟨hshape.1, hset _ _ _ hshape.2.1, hshape.2.2⟩
      | readExtra => exact ⟨hshape.1, hshape.2.1, hset _ _ _ hshape.2.2⟩
      | _ => exact hshape.elim
  | _ => exact hshape

theorem counted_rbytes {n : Int} :
    ((counted t r n).2 = .readCompleted ∧ (counted t r n).1 = { r with rbytes := 0 }) ∨
      ((counted t r n).2 = .needMore ∧ (counted t r n).1.rbytes ≠ total r t ∧
        total (counted t r n).1 t = total r t) := by
  rw [counted]
  split
  · exact .inl ⟨rfl, rfl⟩
  · refine .inr ⟨rfl, ‹_›, ?_⟩
    cases t with
    | none => rfl
    | some fd => cases fd <;> rfl

/-- What `read_nbytes` says about the index. -/
theorem taken_rbytes (hr : r.rbytes ≠ total r t) (res : ReadResult) :
    (taken t r f res).1.dataLength = r.dataLength ∧
      (((taken t r f res).2.2 = .readCompleted ∧ (taken t r f res).1.rbytes = 0) ∨
        ((taken t r f res).2.2 = .readErr ∧ res = .eof) ∨
        ((taken t r f res).2.2 = .needMore ∧
          (taken t r f res).1.rbytes ≠ total (taken t r f res).1 t)) := by
  have hlength : ∀ r' : Request, ∀ n, (counted t r' n).1.dataLength = r'.dataLength := by
    intro r' n
    rw [counted]
    split <;> rfl
  have hcounted : ∀ r' : Request, ∀ n,
      ((counted t r' n).2 = .readCompleted ∧ (counted t r' n).1.rbytes = 0) ∨
        ((counted t r' n).2 = .needMore ∧
          (counted t r' n).1.rbytes ≠ total (counted t r' n).1 t) := by
    intro r' n
    rcases counted_rbytes (t := t) (r := r') (n := n) with ⟨h₁, h₂⟩ | ⟨h₁, h₂, h₃⟩
    · exact .inl ⟨h₁, by rw [h₂]⟩
    · exact .inr ⟨h₁, by rwa [h₃]⟩
  cases res with
  | eof => exact ⟨rfl, .inr (.inl ⟨rfl, rfl⟩)⟩
  | wouldBlock => exact ⟨rfl, .inr (.inr ⟨rfl, hr⟩)⟩
  | error =>
      refine ⟨hlength .., ?_⟩
      rcases hcounted r (-1) with h | h
      · exact .inl h
      · exact .inr (.inr h)
  | byte b =>
      refine ⟨(hlength ..).trans (by cases t <;> rfl), ?_⟩
      rcases hcounted (stored t r f b).1 1 with h | h
      · exact .inl h
      · exact .inr (.inr h)

/-- The fields come in the order key, data, extra. -/
theorem Shape.ordered {state : ConnState} (h : Shape f state) :
    (f.data ≠ [] → f.key ≠ []) ∧ (f.extra ≠ [] → f.data ≠ []) ∧
      (f.key = [] → state = .readHeader) := by
  cases state with
  | readHeader => exact ⟨fun hd => absurd (h .data) hd, fun he => absurd (h .extra) he,
      fun _ => rfl⟩
  | readKey => exact ⟨fun _ => h.1, fun he => absurd h.2.2 he, fun hk => absurd hk h.1⟩
  | readData => exact ⟨fun _ => h.1, fun _ => h.2.1, fun hk => absurd hk h.1⟩
  | readExtra => exact ⟨fun _ => h.1, fun _ => h.2.1, fun hk => absurd hk h.1⟩
  | _ => exact h.elim

theorem settled_rbytes (state : ConnState) : (settled state r).rbytes = r.rbytes := by
  rw [settled]
  split <;> rfl

theorem settled_small {state : ConnState} {r₁ : Request}
    (hsmall : state ≠ .readHeader → r.dataLength < protocolMaxDataSize)
    (hlength : r₁.dataLength = r.dataLength)
    (hfits : state = .readHeader → ¬ TooLarge (convertHeader r₁)) :
    (settled state r₁).dataLength < protocolMaxDataSize := by
  rw [settled]
  split
  · have := hfits ‹_›
    rw [TooLarge, not_or] at this
    exact Nat.lt_of_not_ge this.1
  · rw [hlength]
    exact hsmall ‹_›

/-- The cases of one call, for a connection that reads a request. -/
theorem Reads.elim {conn conn₁ : Conn} {r₁ : Request} {f₁ : Fields}
    {ret : SocketState} {received : Bool} {mem : σ} (hrd : Reading conn r f)
    (h : Reads H mem conn r f res r₁ f₁ conn₁ ret received) :
    (received = false ∧ ret = .readErr ∧ conn₁ = conn) ∨
      (received = false ∧ ret ≠ .readErr ∧ Reading conn₁ r₁ f₁) ∨
      (received = false ∧ ret ≠ .readErr ∧ ∃ code,
        conn₁ = queued (heard conn res) r₁.opcode none 0 code true) ∨
      (received = true ∧ ret ≠ .readErr ∧
        conn₁ = { heard conn res with state := .cmdReceived } ∧
        (f₁.key = [] → r₁.keyLength = 0) ∧ (f₁.data ≠ [] → f₁.key ≠ []) ∧
        (f₁.extra ≠ [] → f₁.data ≠ []) ∧ r₁.dataLength < protocolMaxDataSize) := by
  have hheard : (heard conn res).interest = some .read ∧
      (heard conn res).out.sdata = none := by
    cases res <;> exact ⟨hrd.interest, hrd.sdata⟩
  have hshape := taken_shape (r := r) hrd.shape res
  obtain ⟨hlength, hindex⟩ := taken_rbytes (f := f) hrd.rbytes res
  cases h with
  | more hret step =>
      rw [step] at hshape hlength hindex
      rcases hindex with ⟨hdone, -⟩ | ⟨hclosed, heof⟩ | ⟨hmore, hr⟩
      · exact absurd hdone hret
      · exact .inl ⟨rfl, hclosed, by rw [heof]; rfl⟩
      · have hstate : (heard conn res).state = conn.state := by cases res <;> rfl
        refine .inr (.inl ⟨rfl, ?_, hheard.1, hheard.2, by rwa [hstate], fun hne => ?_,
          by rwa [hstate]⟩)
        · rw [show ret = .needMore from hmore]
          decide
        · rw [show r₁.dataLength = r.dataLength from hlength]
          exact hrd.small (hstate ▸ hne)
  | refused => exact .inr (.inr (.inl ⟨rfl, by decide, _, rfl⟩))
  | exhausted => exact .inr (.inr (.inl ⟨rfl, by decide, _, rfl⟩))
  | @field r₂ f₂ g a bytes step fits next length =>
      rw [step] at hshape hlength hindex
      have hzero : r₂.rbytes = 0 := by
        rcases hindex with ⟨-, hzero⟩ | ⟨hclosed, -⟩ | ⟨hmore, -⟩
        · exact hzero
        · cases hclosed
        · cases hmore
      obtain ⟨hfollow, hne⟩ : following conn.state = some g ∧
          g.length (settled conn.state r₂) ≠ 0 := by
        simpa [nextField, Option.filter_eq_some_iff] using next
      have hbytes : bytes ≠ [] := List.ne_nil_of_length_pos (by omega)
      have hsmall := settled_small hrd.small hlength fits
      have hgtarget : target g.state = some g := by cases g <;> rfl
      refine .inr (.inl ⟨rfl, by decide, hheard.1, hheard.2, ?_, fun _ => ?_, ?_⟩)
      · change Shape (g.put f₂ bytes) g.state
        cases hstate : conn.state <;> rw [hstate] at hshape hfollow <;>
          first
          | exact hshape.elim
          | cases hfollow
        · exact ⟨hbytes, hshape .data, hshape .extra⟩
        · exact ⟨hshape.1, hbytes, hshape.2.2⟩
        · exact ⟨hshape.1, hshape.2.1, hbytes⟩
      · cases g <;> exact hsmall
      · change (g.setPtr (settled conn.state r₂) (some a)).rbytes ≠
          total (g.setPtr (settled conn.state r₂) (some a)) (target g.state)
        rw [hgtarget, Field.setPtr_rbytes, settled_rbytes, hzero, total,
          Field.length_setPtr]
        exact Ne.symm hne
  | @received r₂ f₂ step fits next =>
      rw [step] at hshape hlength
      obtain ⟨hdata, hextra, hkey⟩ := hshape.ordered
      refine .inr (.inr (.inr ⟨rfl, by decide, rfl, fun hnil => ?_, hdata, hextra,
        settled_small hrd.small hlength fits⟩))
      rw [hkey hnil] at next ⊢
      by_contra hne
      simp [nextField, following, Field.length, hne] at next

end Holding

end Lightcache.Server
