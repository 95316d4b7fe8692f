import Lightcache.Server.Store
import Lightcache.Hashtab.Failure

/-!
# What a command does

`Outcome` is the command interpreter without its memory: from the contents of
the cache and the fields of a command, the entries that go, come and stay, the
settings afterwards, and the answer.  `Served` says that a connection has been
given this answer, with every block accounted for.
-/

namespace Lightcache.Server

open Lightcache Lightcache.Foundation Lightcache.Hashtab Heap

variable {σ : Type} (H : Host σ)

/-! ## The interpreter without its memory -/

def Misses (ht : Cache) (key : Bytes) : Prop :=
  ∀ x ∈ ht.live, ¬ Clash ht.realsize x.1 key

def Expired (now : Int) (e : Entry) : Prop :=
  e.timeout < uint32 (now - e.received)

/-- The test for the one setting there is. -/
def NamesTimeout (key : Bytes) : Prop := cstr key = idleConnTimeoutName

instance (key : Bytes) : Decidable (NamesTimeout key) :=
  inferInstanceAs (Decidable (cstr key = idleConnTimeoutName))

/-- The parameters of a SET that is refused. -/
def InvalidSet (f : Fields) : Prop := f.data = [] ∨ atoullValue f.extra = none

/-- The parameters of a CHG_SETTING that is refused. -/
def InvalidChg (f : Fields) : Prop :=
  f.data = [] ∨ ¬ NamesTimeout f.key ∨ atoullValue f.data = none

instance (f : Fields) : Decidable (InvalidSet f) := inferInstanceAs (Decidable (_ ∨ _))

instance (f : Fields) : Decidable (InvalidChg f) := inferInstanceAs (Decidable (_ ∨ _ ∨ _))

structure Result where
  gone : Contents
  new : Contents
  kept : Contents
  settings : Settings
  code : Code
  payload : Bytes

/-- An answer that leaves the cache and the settings alone. -/
def unchanged (ht : Cache) (set : Settings) (code : Code) (payload : Bytes) : Result :=
  ⟨0, 0, ht.live, set, code, payload⟩

/-- An allocation that the command asks for, other than for a growth, is refused. -/
def memoryRefused (h : Heap σ) (ht : Cache) (f : Fields) : Bool :=
  match f.command with
  | some .cmdSet => decide (¬ InvalidSet f) &&
      linkFails H.alloc ht (some (f.key ++ [0])) f.key.length h.mem
  | some .cmdGetSetting => decide (NamesTimeout f.key) && (liMalloc H.alloc h.mem 8).1.isNone
  | some .cmdGetStats => (liMalloc H.alloc h.mem lightcacheStatsSize).1.isNone
  | _ => false

inductive Outcome (h : Heap σ) (ht : Cache) (set : Settings) (q : Addr) (now : Int)
    (f : Fields) : Result → Prop
  | getMiss (cmd : f.command = some .cmdGet) (miss : Misses ht f.key) :
      Outcome h ht set q now f (unchanged ht set .keyNotexists [])
  | getExpired {name v e kept} (cmd : f.command = some .cmdGet)
      (before : ht.live = (name, v) ::ₘ kept)
      (clash : Clash ht.realsize name f.key) (holds : Holds h v e)
      (expired : Expired now e) :
      Outcome h ht set q now f ⟨{(name, v)}, 0, kept, set, .keyNotexists, []⟩
  | getHit {name v e} (cmd : f.command = some .cmdGet)
      (live : (name, v) ∈ ht.live)
      (clash : Clash ht.realsize name f.key) (holds : Holds h v e)
      (fresh : ¬ Expired now e) :
      Outcome h ht set q now f (unchanged ht set .success e.data)
  | setInvalid (cmd : f.command = some .cmdSet)
      (invalid : f.data = [] ∨ atoullValue f.extra = none) :
      Outcome h ht set q now f (unchanged ht set .invalidParam [])
  | setRefused {timeout} (cmd : f.command = some .cmdSet) (data : f.data ≠ [])
      (valid : atoullValue f.extra = some timeout) (fails : ¬ H.alloc.NeverFails)
      (refused : memoryRefused H h ht f = true) :
      Outcome h ht set q now f (unchanged ht set .outOfMemory [])
  | setNew {timeout} (cmd : f.command = some .cmdSet) (data : f.data ≠ [])
      (valid : atoullValue f.extra = some timeout) (miss : Misses ht f.key) :
      Outcome h ht set q now f
        ⟨0, {(f.key, some q)}, ht.live, set, .success, []⟩
  | setOver {timeout name v kept} (cmd : f.command = some .cmdSet)
      (data : f.data ≠ []) (valid : atoullValue f.extra = some timeout)
      (before : ht.live = (name, v) ::ₘ kept)
      (clash : Clash ht.realsize name f.key) :
      Outcome h ht set q now f
        ⟨{(name, v)}, {(name, some q)}, kept, set, .success, []⟩
  | deleteMiss (cmd : f.command = some .cmdDelete) (miss : Misses ht f.key) :
      Outcome h ht set q now f (unchanged ht set .keyNotexists [])
  | delete {name v kept} (cmd : f.command = some .cmdDelete)
      (before : ht.live = (name, v) ::ₘ kept)
      (clash : Clash ht.realsize name f.key) :
      Outcome h ht set q now f ⟨{(name, v)}, 0, kept, set, .success, []⟩
  | flushAll (cmd : f.command = some .cmdFlushAll) :
      Outcome h ht set q now f ⟨ht.live, 0, 0, set, .success, []⟩
  | chgInvalid (cmd : f.command = some .cmdChgSetting)
      (invalid : f.data = [] ∨ ¬ NamesTimeout f.key ∨ atoullValue f.data = none) :
      Outcome h ht set q now f (unchanged ht set .invalidParam [])
  | chgSetting {val} (cmd : f.command = some .cmdChgSetting) (data : f.data ≠ [])
      (names : NamesTimeout f.key) (valid : atoullValue f.data = some val) :
      Outcome h ht set q now f
        ⟨0, 0, ht.live, { set with idleConnTimeout := val }, .success, []⟩
  | getSettingInvalid (cmd : f.command = some .cmdGetSetting)
      (invalid : ¬ NamesTimeout f.key) :
      Outcome h ht set q now f (unchanged ht set .invalidParam [])
  | getSettingRefused (cmd : f.command = some .cmdGetSetting)
      (fails : ¬ H.alloc.NeverFails) (refused : memoryRefused H h ht f = true) :
      Outcome h ht set q now f (unchanged ht set .outOfMemory [])
  | getSetting (cmd : f.command = some .cmdGetSetting) (names : NamesTimeout f.key) :
      Outcome h ht set q now f (unchanged ht set .success (H.endian.store 8
        (htonll H.endian (BitVec.ofNat 64 set.idleConnTimeout)).toNat))
  | getStatsRefused (cmd : f.command = some .cmdGetStats)
      (fails : ¬ H.alloc.NeverFails) (refused : memoryRefused H h ht f = true) :
      Outcome h ht set q now f (unchanged ht set .outOfMemory [])
  | getStats {text} (cmd : f.command = some .cmdGetStats)
      (full : text.length = lightcacheStatsSize) :
      Outcome h ht set q now f (unchanged ht set .success text)
  | unknown (cmd : f.command = none) :
      Outcome h ht set q now f (unchanged ht set .invalidCommand [])

/-! ## Where it goes wrong -/

/-- The first bucket, into which the empty key falls, has a live item. -/
def HeadLive (ht : Cache) : Prop := ∃ it ∈ ht.table 0, it.free = false

/-- The command uses a field that the request does not carry. -/
def ReadsNull (ht : Cache) (f : Fields) : Prop :=
  match f.command with
  | some .cmdGet | some .cmdDelete => f.key = [] ∧ HeadLive ht
  | some .cmdSet => f.data ≠ [] ∧ f.extra = []
  | some .cmdGetSetting => f.key = []
  | _ => False

/-- A valid SET of a new key that makes the table grow, and the growth fails. -/
def GrowthRefused (h : Heap σ) (ht : Cache) (q : Addr) (f : Fields) : Prop :=
  f.command = some .cmdSet ∧ f.data ≠ [] ∧ atoullValue f.extra ≠ none ∧
    growthFails H.alloc ht (some (f.key ++ [0])) f.key.length (some q) h.mem = true

/-! ## What a connection owns -/

/-- The request that a pointer `conn->in` answers for: `can_free` is set. -/
def ownRequest (h : Heap σ) (p : Option Addr) : Option Request :=
  (p.bind h.reqs).filter Request.canFree

def connReqs (h : Heap σ) (conn : Conn) : Multiset Addr :=
  match ownRequest h conn.inReq with
  | none => 0
  | some _ => ptrBlocks conn.inReq

/-- The buffer of the response, unless it belongs to a cached request. -/
def outBufs (out : Response) : Multiset Addr :=
  if out.canFree then ptrBlocks out.sdata else 0

def connBufs (h : Heap σ) (conn : Conn) : Multiset Addr :=
  (match ownRequest h conn.inReq with
    | none => 0
    | some r => r.buffers) + outBufs conn.out

section Owned

variable {h h' : Heap σ} {conn : Conn} {q : Addr} {r : Request}

theorem ownRequest_some (hr : h.reqs q = some r) (hfree : r.canFree = true) :
    ownRequest h (some q) = some r := by
  simp [ownRequest, hr, hfree]

theorem ownRequest_lent (hr : h.reqs q = some r) (hfree : r.canFree = false) :
    ownRequest h (some q) = none := by
  simp [ownRequest, hr, hfree]

theorem connReqs_own (hin : conn.inReq = some q) (hr : h.reqs q = some r)
    (hfree : r.canFree = true) : connReqs h conn = {q} := by
  rw [connReqs, hin, ownRequest_some hr hfree, ptrBlocks_some]

theorem connBufs_own (hin : conn.inReq = some q) (hr : h.reqs q = some r)
    (hfree : r.canFree = true) :
    connBufs h conn = r.buffers + outBufs conn.out := by
  rw [connBufs, hin, ownRequest_some hr hfree]

theorem connReqs_lent (hin : conn.inReq = some q) (hr : h.reqs q = some r)
    (hfree : r.canFree = false) : connReqs h conn = 0 := by
  rw [connReqs, hin, ownRequest_lent hr hfree]

theorem connBufs_lent (hin : conn.inReq = some q) (hr : h.reqs q = some r)
    (hfree : r.canFree = false) : connBufs h conn = outBufs conn.out := by
  rw [connBufs, hin, ownRequest_lent hr hfree, zero_add]

theorem connReqs_none (hin : conn.inReq = none) : connReqs h conn = 0 := by
  simp [connReqs, ownRequest, hin]

theorem connBufs_none (hin : conn.inReq = none) :
    connBufs h conn = outBufs conn.out := by
  simp [connBufs, ownRequest, hin]

end Owned

/-! ## Being served -/

/-- A field that has been received into a buffer of its own, or is absent. -/
def FieldIs (h : Heap σ) (p : Option Addr) (n : Nat) (bytes : Bytes) : Prop :=
  (p = none ∧ bytes = []) ∨
    ∃ a, p = some a ∧ h.bufs a = some (bytes ++ [0]) ∧ bytes.length = n ∧ bytes ≠ []

/-- The request as `try_read_request` hands it to `execute_cmd`. -/
structure Delivered (h : Heap σ) (r : Request) (f : Fields) : Prop where
  opcode : f.opcode = r.opcode
  key : FieldIs h r.rkey r.keyLength f.key
  data : FieldIs h r.rdata r.dataLength f.data
  extra : FieldIs h r.rextra r.extraLength f.extra
  noKey : f.key = [] → r.keyLength = 0
  dataKey : f.data ≠ [] → f.key ≠ []
  extraData : f.extra ≠ [] → f.data ≠ []
  small : r.dataLength < protocolMaxDataSize

structure Reply (h : Heap σ) (conn : Conn) (opcode : UInt8) (code : Code)
    (payload : Bytes) : Prop where
  state : conn.state = .sendHeader
  interest : conn.interest = some .write
  sbytes : conn.out.sbytes = 0
  opcode : conn.out.opcode = opcode
  retcode : conn.out.retcode = code.toByte
  dataLength : conn.out.dataLength = payload.length
  small : payload.length < 2 ^ 32
  payload : payload ≠ [] → ∃ a bytes, conn.out.sdata = some a ∧
    h.bufs a = some bytes ∧ payload <+: bytes

/-- A connection whose request `q` is being executed, beside a frame. -/
structure Serving (H : Host σ) (h : Heap σ) (ht : Cache) (conn : Conn) (q : Addr)
    (r : Request) (f : Fields) (Q B W : Multiset Addr) : Prop where
  store : Store H h ht ({q} + Q) (r.buffers + B) W
  inReq : conn.inReq = some q
  req : h.reqs q = some r
  own : r.canFree = true
  delivered : Delivered h r f

/-- The entry that a SET puts into the cache. -/
def newEntry (r : Request) (f : Fields) : Entry :=
  ⟨f.data, r.received, (atoullValue f.extra).getD 0⟩

/-- The connection after its command, with the answer queued. -/
structure Served (H : Host σ) (h : Heap σ) (ht : Cache) (conn : Conn) (c' : Ctx σ)
    (q : Addr) (r : Request) (f : Fields) (res : Result) (Q B W : Multiset Addr) :
    Prop where
  changed : Changed H h ht c'.heap c'.cache res.gone res.new res.kept Q B
    (connReqs c'.heap c'.conn + Q) (connBufs c'.heap c'.conn + B) W
  settings : c'.settings = res.settings
  reply : Reply c'.heap c'.conn f.opcode res.code res.payload
  conn : c'.conn = { conn with
    out := c'.conn.out, state := c'.conn.state, interest := c'.conn.interest }
  own : res.new = 0 → c'.heap.reqs q = some r
  lent : ∀ x ∈ res.new, x.2 = some q ∧ Holds c'.heap (some q) (newEntry r f)
  shared : c'.conn.out.canFree = false → ∃ x ∈ res.kept, ∃ q₀ r₀,
    x.2 = some q₀ ∧ c'.heap.reqs q₀ = some r₀ ∧ c'.conn.out.sdata = r₀.rdata

end Lightcache.Server
