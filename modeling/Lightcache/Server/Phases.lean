import Lightcache.Server.Effects

/-!
# The states of the connections

Between two events every connection to a client waits for exactly the event its
state calls for, every closed structure waits for none, and no function is
called in a state that it has no branch for.  None of this depends on what the
memory holds.
-/

namespace Lightcache.Server

open Lightcache Lightcache.Foundation Lightcache.Hashtab

variable {σ : Type} {H : Host σ} {s s' : State σ} {a b : Addr} {c c' : Ctx σ}
  {ev : Event} {env : Env}

/-- The phase of one connection structure. -/
structure Phase (conn : Conn) : Prop where
  waiting : Conn.client conn = true →
    ∃ ev, awaited conn.state = some ev ∧ conn.interest = some ev
  closed : conn.free = true →
    Idle conn ∧ conn.interest = none ∧ conn.listening = false
  poll : conn.listening = true → conn.interest = some .read

def Phased (s : State σ) : Prop := ∀ a ∈ s.conns, Phase (s.conn a)

theorem Awaits.phase (h : Awaits c c') (hfree : c.conn.free = false)
    (hlisten : c.conn.listening = false) : Phase c'.conn := by
  obtain ⟨ev, hev, h⟩ := h
  refine ⟨fun _ => ⟨ev, hev, h.interest⟩, fun hf => ?_, fun hl => ?_⟩
  · rw [h.free, hfree] at hf
    cases hf
  · rw [h.listening, hlisten] at hl
    cases hl

theorem Disconnected.phase (h : Disconnected c c') (hlisten : c.conn.listening = false) :
    Phase c'.conn := by
  refine ⟨fun hclient => ?_, fun _ => ⟨⟨h.free, h.state, h.sdata⟩, h.interest,
    h.listening.trans hlisten⟩, fun hl => ?_⟩
  · simp [Conn.client, h.free] at hclient
  · rw [h.listening, hlisten] at hl
    cases hl

theorem Phase.heard {conn : Conn} (h : Phase conn) (t : Int) :
    Phase { conn with lastHeard := t } :=
  ⟨h.waiting, fun hfree =>
    let ⟨hidle, hrest⟩ := h.closed hfree
    ⟨⟨hidle.free, hidle.state, hidle.sdata⟩, hrest⟩, h.poll⟩

/-- Setting up an open structure for its next request. -/
theorem setReadHeader_phase (hfree : c.conn.free = false)
    (hlisten : c.conn.listening = false) :
    Ensures (setReadHeader H c) fun c' => Phase c'.conn :=
  setReadHeader_effect.imp fun _ h => h.elim
    (fun h => Awaits.phase (Becomes.awaits h rfl) hfree hlisten)
    fun h => h.phase hlisten

/-! ## The connection list -/

section List

variable {fd : Nat}

@[simp] theorem put_conn_self (s : State σ) (a : Addr) (c : Ctx σ) :
    (s.put a c).conn a = c.conn := Function.update_self ..

theorem put_conn_of_ne (h : b ≠ a) : (s.put a c).conn b = s.conn b :=
  Function.update_of_ne h ..

@[simp] theorem modifyConn_self (s : State σ) (a : Addr) (f : Conn → Conn) :
    (s.modifyConn a f).conn a = f (s.conn a) := Function.update_self ..

theorem modifyConn_of_ne (h : b ≠ a) (f : Conn → Conn) :
    (s.modifyConn a f).conn b = s.conn b := Function.update_of_ne h ..

theorem put_ctx (s : State σ) (a : Addr) : s.put a (s.ctx a) = s := by
  simp [State.put, State.ctx]

theorem heard_conn (s : State σ) (a : Addr) (t : Int) (b : Addr) :
    (s.modifyConn a fun conn => { conn with lastHeard := t }).conn b =
      { s.conn b with lastHeard := if b = a then t else (s.conn b).lastHeard } := by
  by_cases hba : b = a
  · subst hba
    simp [State.modifyConn]
  · simp [State.modifyConn, hba]

/-- `make_conn` has handed out the structure `b`. -/
structure Made (H : Host σ) (s : State σ) (fd : Nat) (env : Env) (b : Addr)
    (s' : State σ) : Prop where
  self : s'.conn b = openConn fd env (s.conn b) ∨
    s'.conn b = openConn fd env (newConn H s.heap b)
  other : ∀ a, a ≠ b → s'.conn a = s.conn a
  conns : s'.conns = s.conns ∧ b ∈ s.conns ∧ (s.conn b).free = true ∨
    s'.conns = b :: s.conns ∧ ∃ mem, liMalloc H.alloc s.heap.mem sizeofConn = (some b, mem)
  stats : s'.stats = { s.stats with currConnections := s.stats.currConnections + 1 }

/-- Without memory for a new structure, `make_conn` has done nothing else. -/
theorem makeConn_effect (H : Host σ) (s : State σ) (fd : Nat) (env : Env) :
    match makeConn H s fd env with
    | (none, s') => s'.conns = s.conns ∧ s'.conn = s.conn ∧ s'.stats = s.stats
    | (some b, s') => Made H s fd env b s' := by
  rw [makeConn]
  cases hfind : s.conns.find? fun a => (s.conn a).free with
  | some b =>
      refine ⟨.inl (Function.update_self ..), fun a ha => Function.update_of_ne ha ..,
        .inl ⟨rfl, List.mem_of_find?_eq_some hfind, ?_⟩, rfl⟩
      simpa using List.find?_some hfind
  | none =>
      rcases hm : liMalloc H.alloc s.heap.mem sizeofConn with ⟨_ | b, mem⟩
      · exact ⟨rfl, rfl, rfl⟩
      · exact ⟨.inr (Function.update_self ..), fun a ha => Function.update_of_ne ha ..,
          .inr ⟨rfl, mem, hm⟩, rfl⟩

theorem Made.open (h : Made H s fd env b s') :
    (s'.conn b).free = false ∧ (s'.conn b).listening = false := by
  rcases h.self with h | h <;> rw [h] <;> exact ⟨rfl, rfl⟩

theorem Made.mem (h : Made H s fd env b s') (ha : a ∈ s'.conns) (hab : a ≠ b) :
    a ∈ s.conns := by
  rcases h.conns with ⟨hconns, -⟩ | ⟨hconns, -⟩
  · rwa [hconns] at ha
  · rw [hconns] at ha
    exact (List.mem_cons.mp ha).resolve_left hab

end List

/-! ## Every step -/

theorem Phased.put (hs : Phased s) (hc : Phase c.conn) : Phased (s.put a c) := by
  intro b hb
  by_cases hba : b = a
  · subst hba
    rwa [put_conn_self]
  · rw [put_conn_of_ne hba]
    exact hs b hb

theorem Phased.heard (hs : Phased s) (a : Addr) (t : Int) :
    Phased (s.modifyConn a fun conn => { conn with lastHeard := t }) := by
  intro b hb
  rw [heard_conn]
  exact (hs b hb).heard _

/-- A structure that has been handed out waits for its first request. -/
theorem Phased.made {fd : Nat} (hs : Phased s) (h : Made H s fd env b s')
    (hc : Phase c.conn) : Phased (s'.put b c) := by
  intro a ha
  by_cases hab : a = b
  · subst hab
    rwa [put_conn_self]
  · rw [put_conn_of_ne hab, h.other a hab]
    exact hs a (h.mem ha hab)

theorem Phased.accept (hs : Phased s) : Ensures (acceptConn H s env) Phased := by
  rw [acceptConn]
  cases env.accept with
  | none => exact hs
  | some fd =>
      have hmade := makeConn_effect H s fd env
      dsimp only
      rcases hrun : makeConn H s fd env with ⟨_ | b, s'⟩
      · rw [hrun] at hmade
        obtain ⟨hconns, hconn, -⟩ := hmade
        intro a ha
        rw [hconn]
        exact hs a (hconns ▸ ha)
      · rw [hrun] at hmade
        exact (setReadHeader_phase (c := s'.ctx b) hmade.open.1 hmade.open.2).bind
          fun c' hc' => hs.made hmade hc'

theorem Phased.sweep {L : List Addr} (hs : Phased s) (hL : ∀ a ∈ L, a ∈ s.conns)
    (i : Nat) (env : Env) : Ensures (disconnectIdleFrom H L i env s) Phased := by
  induction L generalizing s i with
  | nil => exact hs
  | cons a L ih =>
      have hrest : ∀ b ∈ L, b ∈ s.conns := fun b hb => hL b (List.mem_cons_of_mem _ hb)
      rw [disconnectIdleFrom]
      split
      · exact hs
      · rename_i hstop
        have hlisten : (s.conn a).listening = false := by
          simpa using fun h => hstop (.inr h)
        split
        · exact disconnectConn_effect.bind fun c' hc' =>
            ih (hs.put (hc'.phase hlisten)) hrest _
        · exact ih hs hrest _

/-- An event that the poller delivers finds a branch for it. -/
theorem Phased.delivered (hs : Phased s) (ha : a ∈ s.conns)
    (hev : (s.conn a).interest = some ev ∨ (s.conn a).state = .connClosed)
    (hclosed : (s.conn a).state ≠ .connClosed) (hlisten : (s.conn a).listening = false) :
    (s.conn a).free = false ∧ awaited (s.conn a).state = some ev ∧
      (s.conn a).interest = some ev := by
  replace hev := hev.resolve_right hclosed
  have hfree : (s.conn a).free = false := by
    by_contra hfree
    exact hclosed ((hs a ha).closed (by simpa using hfree)).1.state
  obtain ⟨ev', hstate, hinterest⟩ := (hs a ha).waiting (by simp [Conn.client, hfree, hlisten])
  obtain rfl : ev = ev' := Option.some.inj (hev.symm.trans hinterest)
  exact ⟨hfree, hstate, hinterest⟩

/-- The listening socket is only ever reported as readable. -/
theorem Phased.client_of_delivered (hs : Phased s) (ha : a ∈ s.conns)
    (hev : (s.conn a).interest = some ev ∨ (s.conn a).state = .connClosed)
    (hclosed : (s.conn a).state ≠ .connClosed)
    (hnot : ¬ ((s.conn a).state ≠ .connClosed ∧ (s.conn a).listening ∧ ev = .read)) :
    (s.conn a).listening = false := by
  by_contra hl
  rw [Bool.not_eq_false] at hl
  rw [(hs a ha).poll hl] at hev
  have hread : Event.read = ev := Option.some.inj (hev.resolve_right hclosed)
  exact hnot ⟨hclosed, hl, hread.symm⟩

theorem handleClient_closed (h : c.conn.state = .connClosed) :
    handleClient H c ev env = .ok c := by
  rw [handleClient, if_pos h]

theorem Phased.step (hs : Phased s) (i : Input) : Ensures (step H s i) Phased := by
  cases i with
  | idle env => exact hs.sweep (fun _ h => h) 0 env
  | ready a ev env =>
      rw [Server.step]
      split
      case isFalse => exact hs
      rename_i hguard
      obtain ⟨ha, hev⟩ := hguard
      rw [eventHandler]
      split
      · exact (hs.heard a _).accept
      · rename_i hlisten
        by_cases hclosed : (s.conn a).state = .connClosed
        · rw [handleClient_closed (c := s.ctx a) hclosed, ok_bind]
          change Phased (s.put a (s.ctx a))
          rwa [put_ctx]
        · have hclient := hs.client_of_delivered ha hev hclosed hlisten
          obtain ⟨hfree, hstate, hinterest⟩ := hs.delivered ha hev hclosed hclient
          refine (handleClient_effect (c := s.ctx a) hstate hinterest).bind fun c' hc' => ?_
          exact hs.put (hc'.elim (fun h => h.phase hfree hclient) fun h => h.phase hclient)

/-! ## Every run -/

section Runs

variable {settings : Settings} {heap : Heap σ} {fd : Nat}

/-- A server that has started has one structure, the listening one. -/
theorem start_conns (h : start H settings heap fd env = .ok (some s)) :
    ∃ a, s.conns = [a] ∧ (s.conn a).listening = true ∧ (s.conn a).free = false ∧
      (s.conn a).interest = some .read ∧
      s.stats = { initStats env with currConnections := 1 } := by
  rw [start, makeConn] at h
  dsimp only [initState, List.find?_nil] at h
  rcases hm : liMalloc H.alloc heap.mem sizeofConn with ⟨_ | b, mem⟩ <;> rw [hm] at h
  · cases h
  dsimp only at h
  obtain ⟨⟨_ | cache, mem'⟩, -, h⟩ := ok_of_bind_eq_ok h
  · cases h
  obtain rfl := Option.some.inj (Except.ok.inj h)
  refine ⟨b, rfl, ?_⟩
  simp [State.modifyConn, openConn, initStats]

theorem phased_start (h : start H settings heap fd env = .ok (some s)) : Phased s := by
  obtain ⟨b, hconns, hlisten, hfree, hpoll, -⟩ := start_conns h
  intro a ha
  obtain rfl : a = b := List.mem_singleton.mp (hconns ▸ ha)
  refine ⟨fun hclient => ?_, fun hf => ?_, fun _ => hpoll⟩
  · simp [Conn.client, hlisten] at hclient
  · rw [hfree] at hf
    cases hf

/-- `execute_cmd` is called in one state only, whatever was read. -/
theorem readRequest_received {res : ReadResult} {ret : SocketState}
    (h : readRequest H c res = .ok (c', ret, true)) : c'.conn.state = .cmdReceived := by
  have := (readRequest_receives res).of_ok h
  rw [Receives, if_pos rfl] at this
  exact this.state

theorem awaited_read {state : ConnState} (h : awaited state = some .read) :
    state ∈ [ConnState.readHeader, .readKey, .readData, .readExtra] := by
  cases state <;> first | decide | cases h

theorem awaited_write {state : ConnState} (h : awaited state = some .write) :
    state ∈ [ConnState.sendHeader, .sendData] := by
  cases state <;> first | decide | cases h

/-- The surroundings of a single client that sends `res` next. -/
def hearing (res : ReadResult) : Env := ⟨fun _ => 0, 1, some 7, res, .sent⟩

def emptyHeap (mem : σ) : Heap σ := ⟨mem, fun _ => none, fun _ => none, fun _ => []⟩

/-- The bytes arrive at the connection `a`, one in each event. -/
def arrive (a : Addr) (bytes : Bytes) : List Input :=
  bytes.map fun b => .ready a .read (hearing (.byte b))

/-- The connection `a` takes `n` bytes of its responses. -/
def take (a : Addr) (n : Nat) : List Input :=
  List.replicate n (.ready a .write (hearing .wouldBlock))

/-- A new client has connected to the listening socket `a`. -/
def knock (a : Addr) : Input := .ready a .read (hearing .wouldBlock)

/-- The value "v" for the key "k", for nine seconds. -/
def setPacket : Packet := ⟨⟨1, ascii "k", ascii "v", ascii "9"⟩, by decide, by decide, by decide⟩

def getPacket : Packet := ⟨⟨0, ascii "k", [], []⟩, by decide, by decide, by decide⟩

def deletePacket : Packet := ⟨⟨5, ascii "k", [], []⟩, by decide, by decide, by decide⟩

/-- The value "X" for another key. -/
def otherPacket : Packet := ⟨⟨1, ascii "j", ascii "X", ascii "9"⟩, by decide, by decide, by decide⟩

end Runs

end Lightcache.Server
