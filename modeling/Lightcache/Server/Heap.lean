import Lightcache.Protocol
import Mathlib.Logic.Function.Basic
import Mathlib.Tactic.Abel

/-!
# The memory of the server

Request objects and byte buffers live at addresses that the allocator hands
out.  Reading one that is not there is a fault, and what an address holds is
forgotten when it is released.  The bytes left in a released block are kept
apart: an allocator that does not clear its blocks hands them out again.

`Typed` splits the blocks in use among request objects, byte buffers, and those
that belong to the table and to the list of connections.
-/

namespace Lightcache.Server

open Lightcache Lightcache.Foundation

variable {σ : Type}

/--
What the server takes from the machine it runs on: the allocator, the byte
order, and how the compiler lays out its records.
-/
structure Host (σ : Type) where
  alloc : Allocator σ Addr
  endian : Endian
  /-- A request, or a connection, as the bytes of a new block read. -/
  requestOf : Bytes → Request
  connOf : Bytes → Conn
  /-- What a request leaves in its block, given the bytes it was put over. -/
  bytesOf : Request → Bytes → Bytes
  requestOf_header : ∀ bytes, (requestOf bytes).header.length = sizeofReqHeader
  connOf_clear : ∀ n, (connOf (List.replicate n 0)).out.canFree = false

section Layout

/-- The integer in `n` bytes at an offset, on a little-endian machine. -/
def intAt (bytes : Bytes) (offset n : Nat) : Nat := leNat ((bytes.drop offset).take n)

def ptrAt (bytes : Bytes) (offset : Nat) : Option Addr :=
  if intAt bytes offset 8 = 0 then none else some (intAt bytes offset 8)

def storePtr (p : Option Addr) : Bytes := leBytes 8 (p.getD 0)

def stateAt (bytes : Bytes) (offset : Nat) : ConnState :=
  match intAt bytes offset 4 with
  | 0 => .readHeader
  | 1 => .readKey
  | 2 => .readData
  | 3 => .connClosed
  | 4 => .cmdReceived
  | 5 => .sendHeader
  | 6 => .sendData
  | 7 => .readExtra
  | _ => .cmdSent

/-- A 64-bit little-endian machine, with pointers of eight bytes. -/
def Host.lp64 (alloc : Allocator σ Addr) : Host σ where
  alloc := alloc
  endian := .little
  requestOf bytes := {
    header := (bytes ++ List.replicate sizeofReqHeader 0).take sizeofReqHeader
    dataLength := intAt bytes 4 4
    extraLength := intAt bytes 8 4
    rdata := ptrAt bytes 16
    rkey := ptrAt bytes 24
    rextra := ptrAt bytes 32
    rbytes := intAt bytes 40 4
    received := Int.bmod (intAt bytes 48 8) (2 ^ 64)
    canFree := intAt bytes 56 4 ≠ 0 }
  connOf bytes := {
    fd := intAt bytes 0 4
    listening := intAt bytes 4 1 ≠ 0
    free := intAt bytes 5 1 ≠ 0
    lastHeard := Int.bmod (intAt bytes 8 8) (2 ^ 64)
    state := stateAt bytes 16
    inReq := ptrAt bytes 24
    out := {
      opcode := bytes.getD 32 0
      retcode := bytes.getD 33 0
      pad := (bytes.getD 34 0, bytes.getD 35 0)
      dataLength := netNat ((bytes.drop 36).take 4)
      sdata := ptrAt bytes 40
      sbytes := intAt bytes 48 4
      canFree := intAt bytes 52 4 ≠ 0 }
    interest := none
    trace := ⟨0, [], []⟩ }
  bytesOf r old :=
    r.header.take 4 ++ leBytes 4 r.dataLength ++ leBytes 4 r.extraLength ++
      (old.drop 12).take 4 ++ storePtr r.rdata ++ storePtr r.rkey ++
      storePtr r.rextra ++ leBytes 4 r.rbytes ++ (old.drop 44).take 4 ++
      leBytes 8 (r.received % 2 ^ 64).toNat ++ leBytes 4 r.canFree.toNat ++ old.drop 60
  requestOf_header bytes := by simp
  connOf_clear n := by
    have hzero : ∀ k, leNat (List.replicate k 0) = 0 := fun k => by
      induction k with
      | zero => rfl
      | succ k ih => simp [List.replicate_succ, leNat, ih]
    simp [intAt, List.drop_replicate, List.take_replicate, hzero]

end Layout

structure Heap (σ : Type) where
  mem : σ
  reqs : Addr → Option Request
  bufs : Addr → Option Bytes
  stale : Addr → Bytes

namespace Heap

variable (H : Host σ)

/-- The bytes found in a block of `n` bytes handed out at `a`. -/
def newBlock (h : Heap σ) (a : Addr) (n : Nat) : Bytes :=
  if H.alloc.clears then List.replicate n 0
  else (h.stale a ++ List.replicate n 0).take n

/-- The bytes that stay behind when `a` is released. -/
def leftBehind (h : Heap σ) (a : Addr) : Bytes :=
  match h.bufs a, h.reqs a with
  | some bytes, _ => bytes ++ (h.stale a).drop bytes.length
  | none, some r => H.bytesOf r (h.stale a)
  | none, none => h.stale a

def mallocRequest (h : Heap σ) : Option Addr × Heap σ :=
  match liMalloc H.alloc h.mem sizeofRequest with
  | (none, mem) => (none, { h with mem := mem })
  | (some a, mem) =>
      (some a, { h with
        mem := mem
        reqs := Function.update h.reqs a
          (some (H.requestOf (h.newBlock H a sizeofRequest))) })

def mallocBytes (h : Heap σ) (n : Nat) : Option Addr × Heap σ :=
  match liMalloc H.alloc h.mem n with
  | (none, mem) => (none, { h with mem := mem })
  | (some a, mem) =>
      (some a, { h with
        mem := mem
        bufs := Function.update h.bufs a (some (h.newBlock H a n)) })

theorem mallocBytes_fst (h : Heap σ) (n : Nat) :
    (h.mallocBytes H n).1 = (liMalloc H.alloc h.mem n).1 := by
  rw [mallocBytes]
  rcases liMalloc H.alloc h.mem n with ⟨_ | a, mem⟩ <;> rfl

def liFree (h : Heap σ) : Option Addr → Except Fault (Heap σ)
  | none => .ok h
  | some a => do
      let mem ← Lightcache.liFree H.alloc h.mem (some a)
      return {
        mem := mem
        reqs := Function.update h.reqs a none
        bufs := Function.update h.bufs a none
        stale := Function.update h.stale a (h.leftBehind H a) }

def readRequest (h : Heap σ) (q : Addr) : Except Fault Request :=
  match h.reqs q with
  | none => .error .useAfterFree
  | some r => .ok r

def writeRequest (h : Heap σ) (q : Addr) (r : Request) : Heap σ :=
  { h with reqs := Function.update h.reqs q (some r) }

/-- A `char *` to the bytes of a buffer; NULL stays NULL. -/
def load (h : Heap σ) : Option Addr → Except Fault (Option Bytes)
  | none => .ok none
  | some a =>
      match h.bufs a with
      | none => .error .staleBuffer
      | some bytes => .ok (some bytes)

def writeBytes (h : Heap σ) (a : Addr) (bytes : Bytes) : Heap σ :=
  { h with bufs := Function.update h.bufs a (some bytes) }

/-- The four `li_free` calls of `del_cached_req` and `free_request`. -/
def releaseRequest (h : Heap σ) (q : Addr) : Except Fault (Heap σ) := do
  let r ← h.readRequest q
  let h ← h.liFree H r.rkey
  let h ← h.liFree H r.rdata
  let h ← h.liFree H r.rextra
  h.liFree H (some q)

/-! ## Typed heaps -/

structure Typed (h : Heap σ) (Q B W : Multiset Addr) : Prop where
  owns : H.alloc.Owns h.mem (Q + B + W)
  reqs : ∀ a, h.reqs a ≠ none ↔ a ∈ Q
  bufs : ∀ a, h.bufs a ≠ none ↔ a ∈ B

/-- Nothing has changed at the requests `Q` and the buffers `B`. -/
structure Agree (Q B : Multiset Addr) (h h' : Heap σ) : Prop where
  reqs : ∀ a ∈ Q, h'.reqs a = h.reqs a
  bufs : ∀ a ∈ B, h'.bufs a = h.bufs a

variable {H} {h h' h'' : Heap σ} {Q Q' B B' W : Multiset Addr} {q a : Addr}
  {r : Request} {p : Option Addr} {n : Nat} {bytes : Bytes}

theorem Agree.refl (Q B : Multiset Addr) (h : Heap σ) : Agree Q B h h :=
  ⟨fun _ _ => rfl, fun _ _ => rfl⟩

theorem Agree.trans (h₁ : Agree Q B h h') (h₂ : Agree Q B h' h'') :
    Agree Q B h h'' :=
  ⟨fun a ha => (h₂.reqs a ha).trans (h₁.reqs a ha),
    fun a ha => (h₂.bufs a ha).trans (h₁.bufs a ha)⟩

theorem Agree.mono (hagree : Agree Q B h h') (hQ : Q' ≤ Q) (hB : B' ≤ B) :
    Agree Q' B' h h' :=
  ⟨fun a ha => hagree.reqs a (Multiset.mem_of_le hQ ha),
    fun a ha => hagree.bufs a (Multiset.mem_of_le hB ha)⟩

@[simp] theorem newBlock_length (h : Heap σ) (a : Addr) (n : Nat) :
    (h.newBlock H a n).length = n := by
  rw [newBlock]
  split <;> simp

namespace Typed

theorem congr (ht : Typed H h Q B W) {W' : Multiset Addr} (hQ : Q' = Q)
    (hB : B' = B) (hW : W' = W) : Typed H h Q' B' W' := by
  subst hQ hB hW
  exact ht

/-- The table has taken or given up blocks. -/
theorem withMem (ht : Typed H h Q B W) (mem : σ) {W' : Multiset Addr}
    (hown : H.alloc.Owns mem (W' + (Q + B))) :
    Typed H { h with mem := mem } Q B W' :=
  ⟨by rwa [add_comm], ht.reqs, ht.bufs⟩

theorem tableOwns (ht : Typed H h Q B W) : H.alloc.Owns h.mem (W + (Q + B)) := by
  rw [add_comm]
  exact ht.owns

theorem nodup (ht : Typed H h Q B W) : (Q + B).Nodup :=
  Multiset.nodup_of_le (Multiset.le_add_right _ W) ht.owns.nodup

theorem notMem_bufs (ht : Typed H h Q B W) (hq : q ∈ Q) : q ∉ B := fun hB =>
  Multiset.disjoint_left.mp (Multiset.nodup_add.mp ht.nodup).2.2 hq hB

theorem notMem_reqs (ht : Typed H h Q B W) (ha : a ∈ B) : a ∉ Q := fun hQ =>
  ht.notMem_bufs hQ ha

theorem reqs_nodup (ht : Typed H h Q B W) : Q.Nodup :=
  (Multiset.nodup_add.mp ht.nodup).1

theorem bufs_nodup (ht : Typed H h Q B W) : B.Nodup :=
  (Multiset.nodup_add.mp ht.nodup).2.1

/-! ### Releasing -/

theorem freeReq (ht : Typed H h ({q} + Q) B W) :
    ∃ h', h.liFree H (some q) = .ok h' ∧ Typed H h' Q B W ∧ Agree Q B h h' := by
  have hq : q ∈ {q} + Q := by simp
  have hqQ : q ∉ Q := by
    have := ht.reqs_nodup
    rw [Multiset.singleton_add, Multiset.nodup_cons] at this
    exact this.1
  have hqB := ht.notMem_bufs hq
  obtain ⟨mem, hmem, hown⟩ := Owns.liFree (A := H.alloc) (m := h.mem)
    (p := some q) (M := Q + B + W) (ht.owns.congr (by
      rw [ptrBlocks_some]; abel))
  refine ⟨_, by rw [liFree, hmem]; rfl, ⟨hown, fun a => ?_, fun a => ?_⟩,
    fun a ha => ?_, fun a ha => ?_⟩
  · by_cases haq : a = q
    · simp [haq, hqQ]
    · simpa [haq] using ht.reqs a
  · by_cases haq : a = q
    · simp [haq, hqB]
    · simpa [haq] using ht.bufs a
  · exact Function.update_of_ne (fun haq => hqQ (by rwa [← haq])) ..
  · exact Function.update_of_ne (fun haq => hqB (by rwa [← haq])) ..

theorem freeBuf (ht : Typed H h Q (ptrBlocks p + B) W) :
    ∃ h', h.liFree H p = .ok h' ∧ Typed H h' Q B W ∧ Agree Q B h h' := by
  cases p with
  | none => exact ⟨h, rfl, by simpa using ht, .refl ..⟩
  | some b =>
      rw [ptrBlocks_some] at ht
      have hbQ := ht.notMem_reqs (a := b) (by simp)
      have hbB : b ∉ B := by
        have := ht.bufs_nodup
        rw [Multiset.singleton_add, Multiset.nodup_cons] at this
        exact this.1
      obtain ⟨mem, hmem, hown⟩ := Owns.liFree (A := H.alloc) (m := h.mem)
        (p := some b) (M := Q + B + W) (ht.owns.congr (by
          rw [ptrBlocks_some]; abel))
      refine ⟨_, by rw [liFree, hmem]; rfl, ⟨hown, fun a => ?_, fun a => ?_⟩,
        fun a ha => ?_, fun a ha => ?_⟩
      · by_cases hab : a = b
        · simp [hab, hbQ]
        · simpa [hab] using ht.reqs a
      · by_cases hab : a = b
        · simp [hab, hbB]
        · simpa [hab] using ht.bufs a
      · exact Function.update_of_ne (fun hab => hbQ (by rwa [← hab])) ..
      · exact Function.update_of_ne (fun hab => hbB (by rwa [← hab])) ..

theorem release (ht : Typed H h ({q} + Q) (r.buffers + B) W)
    (hr : h.reqs q = some r) :
    ∃ h', h.releaseRequest H q = .ok h' ∧ Typed H h' Q B W ∧ Agree Q B h h' := by
  obtain ⟨h₁, hf₁, ht₁, ha₁⟩ := freeBuf (p := r.rkey)
    (ht.congr rfl (show ptrBlocks r.rkey + (ptrBlocks r.rdata +
      (ptrBlocks r.rextra + B)) = _ by rw [Request.buffers]; abel) rfl)
  obtain ⟨h₂, hf₂, ht₂, ha₂⟩ := freeBuf ht₁
  obtain ⟨h₃, hf₃, ht₃, ha₃⟩ := freeBuf ht₂
  obtain ⟨h₄, hf₄, ht₄, ha₄⟩ := freeReq ht₃
  have hQ : Q ≤ {q} + Q := Multiset.le_add_left ..
  refine ⟨h₄, ?_, ht₄, ((ha₁.mono hQ ?_).trans (ha₂.mono hQ ?_)).trans
    ((ha₃.mono hQ le_rfl).trans ha₄)⟩
  · rw [releaseRequest, readRequest, hr]
    dsimp only
    rw [ok_bind, hf₁, ok_bind, hf₂, ok_bind, hf₃, ok_bind, hf₄]
  · rw [← add_assoc]
    exact Multiset.le_add_left ..
  · exact Multiset.le_add_left ..

/-! ### Allocating and writing -/

theorem mallocRequest (ht : Typed H h Q B W) :
    match h.mallocRequest H with
    | (none, h') => Typed H h' Q B W ∧ Agree Q B h h' ∧ ¬ H.alloc.NeverFails
    | (some q, h') => Typed H h' ({q} + Q) B W ∧ Agree Q B h h' ∧ q ∉ Q ∧ q ∉ B ∧
        h'.reqs q = some (H.requestOf (h.newBlock H q sizeofRequest)) := by
  rw [Heap.mallocRequest]
  rcases hm : liMalloc H.alloc h.mem sizeofRequest with ⟨_ | q, mem⟩
  · exact ⟨⟨Owns.liMalloc_none ht.owns hm, ht.reqs, ht.bufs⟩,
      ⟨fun _ _ => rfl, fun _ _ => rfl⟩,
      fun hA => liMalloc_ne_none hA (by decide) hm⟩
  · have hnew := Owns.liMalloc_notMem ht.owns hm
    simp only [Multiset.mem_add, not_or] at hnew
    refine ⟨⟨(Owns.liMalloc ht.owns hm).congr (by abel), fun a => ?_,
      ht.bufs⟩, ⟨fun a ha => ?_, fun _ _ => rfl⟩, hnew.1.1, hnew.1.2,
      Function.update_self ..⟩
    · by_cases haq : a = q
      · simp [haq]
      · simpa [haq] using ht.reqs a
    · exact Function.update_of_ne (fun haq => hnew.1.1 (by rwa [← haq])) ..

theorem mallocBytes (ht : Typed H h Q B W) (hn : 0 < n) :
    match h.mallocBytes H n with
    | (none, h') => Typed H h' Q B W ∧ Agree Q B h h' ∧ ¬ H.alloc.NeverFails
    | (some a, h') => Typed H h' Q ({a} + B) W ∧ Agree Q B h h' ∧
        h'.bufs a = some (h.newBlock H a n) := by
  rw [Heap.mallocBytes]
  rcases hm : liMalloc H.alloc h.mem n with ⟨_ | b, mem⟩
  · exact ⟨⟨Owns.liMalloc_none ht.owns hm, ht.reqs, ht.bufs⟩,
      ⟨fun _ _ => rfl, fun _ _ => rfl⟩,
      fun hA => liMalloc_ne_none hA hn hm⟩
  · have hnew := Owns.liMalloc_notMem ht.owns hm
    simp only [Multiset.mem_add, not_or] at hnew
    refine ⟨⟨(Owns.liMalloc ht.owns hm).congr (by abel), ht.reqs,
      fun a => ?_⟩, ⟨fun _ _ => rfl, fun a ha => ?_⟩, Function.update_self ..⟩
    · by_cases hab : a = b
      · simp [hab]
      · simpa [hab] using ht.bufs a
    · exact Function.update_of_ne (fun hab => hnew.1.2 (by rwa [← hab])) ..

theorem writeRequest (ht : Typed H h Q B W) (hq : q ∈ Q) (r : Request) :
    Typed H (h.writeRequest q r) Q B W := by
  refine ⟨ht.owns, fun a => ?_, ht.bufs⟩
  by_cases haq : a = q
  · simp [Heap.writeRequest, haq, hq]
  · simpa [Heap.writeRequest, haq] using ht.reqs a

theorem writeBytes (ht : Typed H h Q B W) (ha : a ∈ B) (bytes : Bytes) :
    Typed H (h.writeBytes a bytes) Q B W := by
  refine ⟨ht.owns, ht.reqs, fun b => ?_⟩
  by_cases hba : b = a
  · simp [Heap.writeBytes, hba, ha]
  · simpa [Heap.writeBytes, hba] using ht.bufs b

end Typed

theorem agree_writeRequest (hq : q ∉ Q) : Agree Q B h (h.writeRequest q r) :=
  ⟨fun _ ha => Function.update_of_ne (fun haq => hq (by rwa [← haq])) ..,
    fun _ _ => rfl⟩

theorem agree_writeBytes (ha : a ∉ B) : Agree Q B h (h.writeBytes a bytes) :=
  ⟨fun _ _ => rfl,
    fun _ hb => Function.update_of_ne (fun hba => ha (by rwa [← hba])) ..⟩

@[simp] theorem writeRequest_reqs (h : Heap σ) (q : Addr) (r : Request) :
    (h.writeRequest q r).reqs q = some r := Function.update_self ..

@[simp] theorem writeBytes_bufs (h : Heap σ) (a : Addr) (bytes : Bytes) :
    (h.writeBytes a bytes).bufs a = some bytes := Function.update_self ..

theorem readRequest_eq (hr : h.reqs q = some r) : h.readRequest q = .ok r := by
  simp [readRequest, hr]

theorem load_eq (hb : h.bufs a = some bytes) :
    h.load (some a) = .ok (some bytes) := by
  simp [load, hb]

end Heap

end Lightcache.Server
