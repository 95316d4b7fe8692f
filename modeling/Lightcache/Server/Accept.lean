import Lightcache.Foundation.Twins
import Lightcache.Server.Phases
import Lightcache.Server.Sender

/-!
# Connections in recycled memory

`make_conn` sets some fields of a structure and leaves the rest to the functions
that run before the first request is read.  What they find in the structure
matters in two places only: a response that looks like the connection's own is
released, and two bytes of every response header are never set.
-/

namespace Lightcache.Server

open Lightcache Lightcache.Foundation Lightcache.Hashtab

variable {σ : Type} {H : Host σ} {s s' t : State σ} {a b : Addr} {c c' : Ctx σ}
  {q : Addr} {r : Request} {ev : Event} {env : Env}

/-! ## The fields that every response sets -/

/-- Other values in the three header fields that `add_response` sets. -/
structure Stamp where
  opcode : UInt8
  retcode : UInt8
  dataLength : Nat

def Conn.stamp (conn : Conn) (h : Stamp) : Conn :=
  { conn with out := { conn.out with
    opcode := h.opcode, retcode := h.retcode, dataLength := h.dataLength } }

def Ctx.stamp (c : Ctx σ) (h : Stamp) : Ctx σ := c.withConn fun conn => Conn.stamp conn h

variable {h : Stamp}

def Stamped (h : Stamp) (c c' : Ctx σ) : Prop := c' = c.stamp h

theorem freeRequest_stamp :
    Twins (Stamped h) (freeRequest H c) (freeRequest H (c.stamp h)) := by
  have hin : (c.stamp h).conn.inReq = c.conn.inReq := rfl
  rw [freeRequest, freeRequest, hin]
  cases c.conn.inReq with
  | none => exact rfl
  | some q =>
      refine twins_bind _ fun r => ?_
      dsimp only
      split
      · exact rfl
      · exact twins_bind _ fun heap => rfl

theorem freeResponse_stamp :
    Twins (Stamped h) (freeResponse H c) (freeResponse H (c.stamp h)) := by
  have hout : (c.stamp h).conn.out.canFree = c.conn.out.canFree := rfl
  rw [freeResponse, freeResponse, hout]
  split
  · exact twins_bind _ fun heap => rfl
  · exact rfl

theorem initResources_stamp :
    Twins (fun x y => Stamped h x.1 y.1 ∧ y.2 = x.2) (initResources H c)
      (initResources H (c.stamp h)) := by
  rw [initResources, initResources]
  refine freeRequest_stamp.bind fun c₁ c₁' h₁ => ?_
  obtain rfl : c₁' = c₁.stamp h := h₁
  refine freeResponse_stamp.bind fun c₂ c₂' h₂ => ?_
  obtain rfl : c₂' = c₂.stamp h := h₂
  have hheap : (c₂.stamp h).heap = c₂.heap := rfl
  rw [hheap]
  rcases c₂.heap.mallocRequest H with ⟨_ | q, heap⟩
  · exact ⟨rfl, rfl⟩
  · exact twins_bind _ fun r => ⟨rfl, rfl⟩

theorem disconnectConn_stamp :
    Twins (Stamped h) (disconnectConn H c) (disconnectConn H (c.stamp h)) := by
  rw [disconnectConn, disconnectConn]
  refine freeRequest_stamp.bind fun c₁ c₁' h₁ => ?_
  obtain rfl : c₁' = c₁.stamp h := h₁
  refine freeResponse_stamp.bind fun c₂ c₂' h₂ => ?_
  obtain rfl : c₂' = c₂.stamp h := h₂
  exact rfl

theorem setReadHeader_stamp :
    Twins (Stamped h) (setReadHeader H c) (setReadHeader H (c.stamp h)) := by
  rw [setReadHeader, setReadHeader]
  refine initResources_stamp.bind fun x x' h₁ => ?_
  obtain ⟨c₁, ok⟩ := x
  obtain ⟨c₁', ok'⟩ := x'
  obtain ⟨rfl, rfl⟩ : c₁' = c₁.stamp h ∧ ok' = ok := h₁
  cases ok' with
  | true => exact rfl
  | false => exact disconnectConn_stamp

/-! ## Queueing a response forgets them -/

theorem sendResponse_stamp (code : Code) :
    sendResponse (c.stamp h) code = sendResponse c code := rfl

theorem delItem_stamp (ref : ItemRef) :
    Twins (Stamped h) (delItem H c ref) (delItem H (c.stamp h) ref) :=
  twins_bind _ fun _ => twins_bind _ fun _ => rfl

theorem evict_stamp (ref : ItemRef) :
    Twins (Stamped h) (evict H c ref) (evict H (c.stamp h) ref) :=
  (delItem_stamp ref).bind fun c₁ c₁' h₁ => by
    obtain rfl : c₁' = c₁.stamp h := h₁
    exact rfl

theorem executeGet_stamp (r : Request) :
    executeGet H (c.stamp h) r = executeGet H c r := by
  refine twins_eq (twins_bind _ fun key => twins_bind _ fun ref => ?_)
  cases ref with
  | none => exact twins_of_eq rfl
  | some ref =>
      refine twins_bind _ fun it => ?_
      cases it.val with
      | none => exact rfl
      | some cachedReq =>
          refine twins_bind _ fun cached => twins_bind _ fun extra =>
            twins_bind _ fun val => ?_
          cases val with
          | none => exact rfl
          | some val =>
              dsimp only
              split
              · refine (evict_stamp (h := h) ref).bind fun c₁ c₁' h₁ => ?_
                obtain rfl : c₁' = c₁.stamp h := h₁
                exact twins_of_eq rfl
              · exact twins_of_eq rfl

theorem replaceItem_stamp (q : Addr) (key : Option Bytes) (klen : Nat) :
    Twins (Stamped h) (replaceItem H c q key klen)
      (replaceItem H (c.stamp h) q key klen) := by
  refine twins_bind _ fun ref => ?_
  cases ref with
  | none => exact rfl
  | some ref =>
      refine (delItem_stamp ref).bind fun c₁ c₁' h₁ => ?_
      obtain rfl : c₁' = c₁.stamp h := h₁
      exact rfl

theorem setItem_stamp (q : Addr) (r : Request) :
    setItem H (c.stamp h) q r = setItem H c q r := by
  refine twins_eq (twins_bind _ fun key => twins_bind _ fun ⟨ret, cache, mem⟩ => ?_)
  cases ret with
  | herror => exact twins_of_eq rfl
  | hexists =>
      refine (replaceItem_stamp (h := h)
        (c := c.withStore { c.heap with mem := mem } cache) q key r.keyLength).bind
        fun c₁ c₁' h₁ => ?_
      obtain rfl : c₁' = c₁.stamp h := h₁
      exact twins_of_eq rfl
  | hsuccess => exact twins_of_eq rfl

theorem validateSet_stamp (q : Addr) (r : Request) :
    validateSet H (c.stamp h) q r = validateSet H c q r := by
  rw [validateSet, validateSet]
  split
  · exact rfl
  · refine twins_eq (twins_bind _ fun extra => twins_bind _ fun val => ?_)
    cases val with
    | none => exact twins_of_eq rfl
    | some val => exact twins_of_eq (setItem_stamp q r)

theorem executeSet_stamp (q : Addr) (r : Request) :
    executeSet H (c.stamp h) q r = executeSet H c q r :=
  validateSet_stamp (c := c.withStats fun s => { s with cmdSet := s.cmdSet + 1 }) q r

theorem executeDelete_stamp (r : Request) :
    executeDelete H (c.stamp h) r = executeDelete H c r := by
  refine twins_eq (twins_bind _ fun key => twins_bind _ fun ref => ?_)
  cases ref with
  | none => exact twins_of_eq rfl
  | some ref =>
      refine (evict_stamp (h := h) ref).bind fun c₁ c₁' h₁ => ?_
      obtain rfl : c₁' = c₁.stamp h := h₁
      exact twins_of_eq rfl

theorem executeFlushAll_stamp : executeFlushAll H (c.stamp h) = executeFlushAll H c :=
  rfl

theorem executeChgSetting_stamp (r : Request) :
    executeChgSetting (c.stamp h) r = executeChgSetting c r := rfl

theorem executeGetSetting_stamp (r : Request) :
    executeGetSetting H (c.stamp h) r = executeGetSetting H c r := rfl

theorem executeGetStats_stamp :
    executeGetStats H (c.stamp h) env = executeGetStats H c env := rfl

theorem executeCmd_stamp : executeCmd H (c.stamp h) env = executeCmd H c env := by
  have hstate : (c.stamp h).conn.state = c.conn.state := rfl
  rw [executeCmd, executeCmd, hstate]
  split
  · rfl
  · refine twins_eq (twins_bind _ fun x => ?_)
    obtain ⟨q, r⟩ := x
    have hnote : noteExecuted { c.stamp h with
        heap := (c.stamp h).heap.writeRequest q { r with received := env.clock 1 } }
        { r with received := env.clock 1 } = (noteExecuted { c with
        heap := c.heap.writeRequest q { r with received := env.clock 1 } }
        { r with received := env.clock 1 }).stamp h := rfl
    dsimp only
    rw [hnote]
    split
    · exact twins_of_eq (executeGet_stamp _)
    · exact twins_of_eq (executeSet_stamp _ _)
    · exact twins_of_eq (executeDelete_stamp _)
    · exact twins_of_eq executeFlushAll_stamp
    · exact twins_of_eq (executeChgSetting_stamp _)
    · exact twins_of_eq (executeGetSetting_stamp _)
    · exact twins_of_eq executeGetStats_stamp
    · exact twins_of_eq (sendResponse_stamp _)

/-! ## Reading and sending -/

/-- The same connection, or one that will set the header fields before it sends. -/
def Twin (c c' : Ctx σ) : Prop :=
  c' = c ∨ ∃ h, c' = c.stamp h ∧ awaited c.conn.state ≠ some .write

theorem Twin.refl (c : Ctx σ) : Twin c c := .inl rfl

theorem setReadField_twin (f : Field) :
    Twins Twin (setReadField H c f) (setReadField H (c.stamp h) f) := by
  refine twins_bind _ fun ⟨q, r⟩ => ?_
  have hheap : (c.stamp h).heap = c.heap := rfl
  dsimp only
  rw [hheap]
  rcases c.heap.mallocBytes H (f.length r + 1) with ⟨_ | a, heap⟩
  · exact twins_refl .refl _
  · exact .inr ⟨h, rfl, by rw [awaited_field]; simp⟩

theorem countBytes_stamp (q : Addr) (nbytes : Int) (total : Nat) :
    Twins (fun x y => Stamped h x.1 y.1 ∧ y.2 = x.2) (countBytes c q nbytes total)
      (countBytes (c.stamp h) q nbytes total) := by
  refine twins_bind _ fun r => ?_
  dsimp only
  split <;> exact ⟨rfl, rfl⟩

theorem readNbytes_stamp (target : Option Field) (total : Nat) (res : ReadResult) :
    Twins (fun x y => Stamped h x.1 y.1 ∧ y.2 = x.2) (readNbytes c target total res)
      (readNbytes (c.stamp h) target total res) := by
  refine twins_bind _ fun ⟨q, r⟩ => ?_
  cases res with
  | eof => exact ⟨rfl, rfl⟩
  | wouldBlock => exact ⟨rfl, rfl⟩
  | error => exact countBytes_stamp q _ _
  | byte b =>
      have hstore : storeByte (c.stamp h) q r b target = storeByte c q r b target := rfl
      dsimp only
      rw [hstore]
      exact twins_bind _ fun heap => countBytes_stamp q _ _

/-- What `try_read_request` has come to, in the two connections. -/
def TwinRead (x y : Ctx σ × SocketState × Bool) : Prop := Twin x.1 y.1 ∧ y.2 = x.2

theorem setReadField_twinRead (f : Field) (ret : SocketState) :
    Twins TwinRead (setReadField H c f >>= fun c => pure (c, ret, false))
      (setReadField H (c.stamp h) f >>= fun c => pure (c, ret, false)) :=
  (setReadField_twin f).bind fun _ _ h => ⟨h, rfl⟩

theorem setCmdReceived_twinRead (c : Ctx σ) (h : Stamp) :
    TwinRead (setCmdReceived c) (setCmdReceived (c.stamp h)) :=
  ⟨.inr ⟨h, rfl, by simp [setCmdReceived, Ctx.withConn, awaited]⟩, rfl⟩

/-- The rest of a reader when `read_nbytes` has returned. -/
theorem readNbytes_twin (target : Option Field) (total : Nat) (res : ReadResult)
    (hstate : awaited c.conn.state ≠ some .write)
    {f g : Ctx σ × SocketState → Except Fault (Ctx σ × SocketState × Bool)}
    (hfg : ∀ c₁ ret, awaited c₁.conn.state ≠ some .write →
      Twins TwinRead (f (c₁, ret)) (g (c₁.stamp h, ret))) :
    Twins TwinRead (readNbytes c target total res >>= f)
      (readNbytes (c.stamp h) target total res >>= g) := by
  refine ((readNbytes_stamp _ _ _).and_ensures (readNbytes_stays _ _ _)).bind
    fun ⟨c₁, ret⟩ ⟨c₁', ret'⟩ h₁ => ?_
  obtain ⟨⟨rfl, rfl⟩, hstays⟩ : (c₁' = c₁.stamp h ∧ ret' = ret) ∧ Stays c c₁ := h₁
  exact hfg c₁ ret' (hstays.state ▸ hstate)

theorem readHeader_twin (res : ReadResult) (hstate : awaited c.conn.state ≠ some .write) :
    Twins TwinRead (readHeader H c res) (readHeader H (c.stamp h) res) := by
  refine readNbytes_twin _ _ _ hstate fun c₁ ret hstate₁ => ?_
  dsimp only
  split
  · exact ⟨.inr ⟨h, rfl, hstate₁⟩, rfl⟩
  · refine twins_bind _ fun ⟨q, r⟩ => ?_
    dsimp only
    split
    · exact twins_bind _ fun c₂ => ⟨.refl c₂, rfl⟩
    · split
      · exact setCmdReceived_twinRead _ h
      · exact setReadField_twinRead _ _

theorem readField_twin (f : Field) (next : Option Field) (res : ReadResult)
    (hstate : awaited c.conn.state ≠ some .write) :
    Twins TwinRead (readField H c f next res) (readField H (c.stamp h) f next res) := by
  refine twins_bind _ fun ⟨q, r⟩ => ?_
  refine readNbytes_twin _ _ _ hstate fun c₁ ret hstate₁ => ?_
  dsimp only
  split
  · exact ⟨.inr ⟨h, rfl, hstate₁⟩, rfl⟩
  · refine twins_bind _ fun ⟨q, r⟩ => ?_
    cases next with
    | none => exact setCmdReceived_twinRead _ h
    | some g =>
        dsimp only
        split
        · exact setCmdReceived_twinRead _ h
        · exact setReadField_twinRead _ _

theorem readRequest_twin (res : ReadResult) (hstate : awaited c.conn.state ≠ some .write) :
    Twins TwinRead (readRequest H c res) (readRequest H (c.stamp h) res) := by
  have hsame : (c.stamp h).conn.state = c.conn.state := rfl
  rw [readRequest, readRequest, hsame]
  split
  · exact readHeader_twin res hstate
  · exact twins_bind _ fun _ => readField_twin _ _ _ hstate
  · exact twins_bind _ fun _ => readField_twin _ _ _ hstate
  · exact readField_twin _ _ _ hstate
  · exact twins_bind _ fun c₁ => ⟨.refl c₁, rfl⟩

theorem tryReadRequest_twin (hstate : awaited c.conn.state ≠ some .write) :
    Twins (fun x y => Twin x.1 y.1 ∧ y.2 = x.2) (tryReadRequest H c env)
      (tryReadRequest H (c.stamp h) env) := by
  refine (readRequest_twin _ hstate).bind fun ⟨c₁, ret, received⟩ ⟨c₁', ret', received'⟩ h₁ => ?_
  obtain ⟨htwin, hret⟩ := h₁
  obtain ⟨rfl, rfl⟩ : ret' = ret ∧ received' = received := Prod.mk.inj hret
  dsimp only at htwin ⊢
  split
  · have hcmd : executeCmd H c₁' env = executeCmd H c₁ env := by
      rcases htwin with rfl | ⟨h', rfl, -⟩
      · rfl
      · exact executeCmd_stamp
    rw [hcmd]
    exact twins_bind _ fun c₂ => ⟨.refl c₂, rfl⟩
  · exact ⟨htwin, rfl⟩

theorem disconnectConn_twin (htwin : Twin c c') :
    Twins Twin (disconnectConn H c) (disconnectConn H c') := by
  rcases htwin with rfl | ⟨h, rfl, -⟩
  · exact twins_refl .refl _
  · refine (disconnectConn_stamp.and_ensures disconnectConn_effect).imp
      fun c₁ c₁' h₁ => .inr ⟨h, h₁.1, ?_⟩
    rw [h₁.2.state]
    simp [awaited]

/-- An event that is delivered to both connections. -/
theorem handleClient_twin (htwin : Twin c c')
    (hev : c.conn.state = .connClosed ∨ awaited c.conn.state = some ev) :
    Twins Twin (handleClient H c ev env) (handleClient H c' ev env) := by
  rcases htwin with rfl | ⟨h, rfl, hstate⟩
  · exact twins_refl .refl _
  · have hsame : (c.stamp h).conn.state = c.conn.state := rfl
    rw [handleClient, handleClient, hsame]
    split
    · exact .inr ⟨h, rfl, hstate⟩
    · rename_i hopen
      obtain rfl : ev = .read := by
        cases ev with
        | read => rfl
        | write => exact absurd (hev.resolve_left hopen) hstate
      refine (tryReadRequest_twin (h := h) (c := c.withConn fun conn =>
        { conn with lastHeard := env.clock 0 }) hstate).bind
        fun x x' h₁ => ?_
      obtain ⟨c₁, ret⟩ := x
      obtain ⟨c₁', ret'⟩ := x'
      obtain ⟨htwin, rfl⟩ : Twin c₁ c₁' ∧ ret' = ret := h₁
      dsimp only
      split
      · exact disconnectConn_twin htwin
      · exact htwin

/-! ## Two servers that differ in dead fields only -/

/-- The header fields of a response may differ while no response is sent. -/
def TwinConn (conn conn' : Conn) : Prop :=
  conn' = conn ∨ ∃ h, conn' = Conn.stamp conn h ∧ awaited conn.state ≠ some .write

structure TwinState (s t : State σ) : Prop where
  heap : t.heap = s.heap
  cache : t.cache = s.cache
  settings : t.settings = s.settings
  stats : t.stats = s.stats
  conns : t.conns = s.conns
  conn : ∀ a, TwinConn (s.conn a) (t.conn a)

theorem TwinConn.flags {conn conn' : Conn} (h : TwinConn conn conn') :
    conn'.free = conn.free ∧ conn'.listening = conn.listening ∧
      conn'.lastHeard = conn.lastHeard ∧ conn'.state = conn.state ∧
      conn'.interest = conn.interest ∧ conn'.trace = conn.trace := by
  rcases h with rfl | ⟨h, rfl, -⟩ <;> exact ⟨rfl, rfl, rfl, rfl, rfl, rfl⟩

theorem TwinState.ctx (hst : TwinState s t) (a : Addr) : Twin (s.ctx a) (t.ctx a) := by
  have hctx : t.ctx a = { s.ctx a with conn := t.conn a } := by
    rw [State.ctx, hst.heap, hst.cache, hst.settings, hst.stats]
    rfl
  rcases hst.conn a with hconn | ⟨h, hconn, hstate⟩
  · refine .inl ?_
    rw [hctx, hconn]
    rfl
  · refine .inr ⟨h, ?_, hstate⟩
    rw [hctx, hconn]
    rfl

theorem TwinState.put (hst : TwinState s t) (htwin : Twin c c') :
    TwinState (s.put a c) (t.put a c') := by
  have hc : c'.heap = c.heap ∧ c'.cache = c.cache ∧ c'.settings = c.settings ∧
      c'.stats = c.stats ∧ TwinConn c.conn c'.conn := by
    rcases htwin with rfl | ⟨h, rfl, hstate⟩
    · exact ⟨rfl, rfl, rfl, rfl, .inl rfl⟩
    · exact ⟨rfl, rfl, rfl, rfl, .inr ⟨h, rfl, hstate⟩⟩
  obtain ⟨hheap, hcache, hsettings, hstats, hconn⟩ := hc
  refine ⟨hheap, hcache, hsettings, hstats, hst.conns, fun b => ?_⟩
  by_cases hba : b = a
  · subst hba
    rwa [put_conn_self, put_conn_self]
  · rw [put_conn_of_ne hba, put_conn_of_ne hba]
    exact hst.conn b

theorem TwinState.modifyConn (hst : TwinState s t) {f : Conn → Conn}
    (hstamp : ∀ conn h, f (Conn.stamp conn h) = Conn.stamp (f conn) h)
    (hstate : ∀ conn, (f conn).state = conn.state) (a : Addr) :
    TwinState (s.modifyConn a f) (t.modifyConn a f) := by
  refine ⟨hst.heap, hst.cache, hst.settings, hst.stats, hst.conns, fun b => ?_⟩
  by_cases hba : b = a
  · subst hba
    rw [modifyConn_self, modifyConn_self]
    rcases hst.conn b with hconn | ⟨h, hconn, hnot⟩
    · exact .inl (congrArg f hconn)
    · exact .inr ⟨h, by rw [hconn, hstamp], by rwa [hstate]⟩
  · rw [modifyConn_of_ne hba, modifyConn_of_ne hba]
    exact hst.conn b

theorem setReadHeader_twin (htwin : Twin c c') :
    Twins Twin (setReadHeader H c) (setReadHeader H c') := by
  rcases htwin with rfl | ⟨h, rfl, -⟩
  · exact twins_refl .refl _
  · refine (setReadHeader_stamp.and_ensures setReadHeader_effect).imp
      fun c₁ c₁' h₁ => .inr ⟨h, h₁.1, ?_⟩
    rcases h₁.2 with h₂ | h₂ <;> rw [h₂.state] <;> simp [awaited]

theorem makeConn_twin (hst : TwinState s t) (fd : Nat) (env : Env) :
    (makeConn H t fd env).1 = (makeConn H s fd env).1 ∧
      TwinState (makeConn H s fd env).2 (makeConn H t fd env).2 := by
  obtain ⟨heap, cache, settings, stats, conns, conn⟩ := t
  obtain ⟨rfl, rfl, rfl, rfl, rfl, hconn⟩ := hst
  have hfind : (s.conns.find? fun a => (conn a).free) =
      s.conns.find? fun a => (s.conn a).free := by
    congr 1
    funext a
    exact (hconn a).flags.1
  rw [makeConn, makeConn]
  dsimp only
  rw [hfind]
  cases s.conns.find? fun a => (s.conn a).free with
  | some a =>
      have hcounted : TwinState
          { s with stats := { s.stats with currConnections := s.stats.currConnections + 1 } }
          { s with
            stats := { s.stats with currConnections := s.stats.currConnections + 1 }
            conn := conn } := ⟨rfl, rfl, rfl, rfl, rfl, hconn⟩
      exact ⟨rfl, hcounted.modifyConn (f := openConn fd env) (fun _ _ => rfl)
        (fun _ => rfl) a⟩
  | none =>
      dsimp only
      rcases liMalloc H.alloc s.heap.mem sizeofConn with ⟨_ | a, mem⟩
      · exact ⟨rfl, rfl, rfl, rfl, rfl, rfl, hconn⟩
      · refine ⟨rfl, rfl, rfl, rfl, rfl, rfl, fun b => ?_⟩
        by_cases hba : b = a
        · subst hba
          dsimp only
          rw [Function.update_self, Function.update_self]
          exact .inl rfl
        · dsimp only
          rw [Function.update_of_ne hba, Function.update_of_ne hba]
          exact hconn b

theorem acceptConn_twins (hst : TwinState s t) :
    Twins TwinState (acceptConn H s env) (acceptConn H t env) := by
  rw [acceptConn, acceptConn]
  cases env.accept with
  | none => exact hst
  | some fd =>
      obtain ⟨hsame, htwin⟩ := makeConn_twin (H := H) hst fd env
      dsimp only
      rcases hs : makeConn H s fd env with ⟨_ | a, s₁⟩ <;>
        rcases ht : makeConn H t fd env with ⟨_ | a', t₁⟩ <;> rw [hs, ht] at hsame htwin <;>
        cases hsame
      · exact htwin
      · exact (setReadHeader_twin (htwin.ctx a)).bind fun c c' h => htwin.put h

theorem sweep_twins {L : List Addr} {i : Nat} (hst : TwinState s t) :
    Twins TwinState (disconnectIdleFrom H L i env s) (disconnectIdleFrom H L i env t) := by
  induction L generalizing s t i with
  | nil => exact hst
  | cons a L ih =>
      obtain ⟨hfree, hlisten, hheard, -⟩ := (hst.conn a).flags
      rw [disconnectIdleFrom, disconnectIdleFrom, hfree, hlisten, hheard, hst.settings]
      split
      · exact hst
      · split
        · exact (disconnectConn_twin (hst.ctx a)).bind fun c c' h => ih (hst.put h)
        · exact ih hst

theorem step_twins (hst : TwinState s t) (hs : Phased s) (i : Input) :
    Twins TwinState (step H s i) (step H t i) := by
  cases i with
  | idle env =>
      rw [Server.step, Server.step, disconnectIdleConns, disconnectIdleConns, hst.conns]
      exact sweep_twins hst
  | ready a ev env =>
      obtain ⟨-, hlisten, -, hstate, hinterest, -⟩ := (hst.conn a).flags
      rw [Server.step, Server.step, eventHandler, eventHandler, hst.conns, hstate, hinterest,
        hlisten]
      split
      case isFalse => exact hst
      rename_i hguard
      obtain ⟨ha, hev⟩ := hguard
      split
      · exact acceptConn_twins (hst.modifyConn
          (f := fun conn => { conn with lastHeard := env.clock 0 }) (fun _ _ => rfl)
          (fun _ => rfl) a)
      · rename_i hnot
        refine (handleClient_twin (hst.ctx a) ?_).bind fun c c' h => hst.put h
        by_cases hclosed : (s.conn a).state = .connClosed
        · exact .inl hclosed
        · exact .inr (hs.delivered ha hev hclosed
            (hs.client_of_delivered ha hev hclosed hnot)).2.1

/-- The two servers cannot be told apart, at any socket. -/
theorem runs_twins (hst : TwinState s t) (hs : Phased s) (inputs : List Input) :
    Twins TwinState (run (step H) s inputs) (run (step H) t inputs) :=
  (run_twins (R := fun s t => TwinState s t ∧ Phased s)
    (fun _ _ i h => (step_twins h.1 h.2 i).and_ensures (h.2.step i)) ⟨hst, hs⟩ inputs).imp
    fun _ _ h => h.1

end Lightcache.Server
