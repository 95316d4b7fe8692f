import Lightcache.Server.Event

/-!
# What becomes of a connection

What each function of the server does to the connection at hand and to the
statistics, whatever the memory holds and whatever fails.  Nothing here depends
on the cache or on the ownership of blocks.
-/

namespace Lightcache.Server

open Lightcache Lightcache.Foundation Lightcache.Hashtab

variable {σ : Type} {H : Host σ} {c c' c₁ : Ctx σ} {q : Addr} {r : Request}
  {state state₁ : ConnState} {interest interest₁ : Option Event} {env : Env}

/-- Every GET that was counted has been a hit or a miss. -/
def Stats.Balanced (s : Stats) : Prop := s.cmdGet = s.getHits + s.getMisses

/-- A connection that belongs to a client. -/
def Conn.client (conn : Conn) : Bool := !conn.free && !conn.listening

/-- A connection structure that waits for its next client. -/
structure Idle (conn : Conn) : Prop where
  free : conn.free = true
  state : conn.state = .connClosed
  sdata : conn.out.sdata = none

/-- The connection is open as before, in a state of its own. -/
structure Becomes (c c' : Ctx σ) (state : ConnState) (interest : Option Event) :
    Prop where
  state : c'.conn.state = state
  interest : c'.conn.interest = interest
  free : c'.conn.free = c.conn.free
  listening : c'.conn.listening = c.conn.listening
  curr : c'.stats.currConnections = c.stats.currConnections
  gets : c.stats.Balanced → c'.stats.Balanced

/-- Neither the state nor the interest of the connection has changed. -/
abbrev Stays (c c' : Ctx σ) : Prop := Becomes c c' c.conn.state c.conn.interest

/-- A response has been queued. -/
abbrev Replies (c c' : Ctx σ) : Prop := Becomes c c' .sendHeader (some .write)

/-- `disconnect_conn` has been called. -/
structure Disconnected (c c' : Ctx σ) : Prop where
  state : c'.conn.state = .connClosed
  interest : c'.conn.interest = none
  free : c'.conn.free = true
  sdata : c'.conn.out.sdata = none
  listening : c'.conn.listening = c.conn.listening
  curr : c'.stats.currConnections = c.stats.currConnections - 1
  gets : c.stats.Balanced → c'.stats.Balanced

theorem Stays.refl (c : Ctx σ) : Stays c c := ⟨rfl, rfl, rfl, rfl, rfl, id⟩

theorem Stays.trans (h : Stays c c₁) (h₁ : Becomes c₁ c' state interest) :
    Becomes c c' state interest :=
  ⟨h₁.state, h₁.interest, h₁.free.trans h.free, h₁.listening.trans h.listening,
    h₁.curr.trans h.curr, h₁.gets ∘ h.gets⟩

theorem Becomes.stays (h : Becomes c c₁ state interest) (h₁ : Stays c₁ c') :
    Becomes c c' state interest :=
  ⟨h₁.state.trans h.state, h₁.interest.trans h.interest, h₁.free.trans h.free,
    h₁.listening.trans h.listening, h₁.curr.trans h.curr, h₁.gets ∘ h.gets⟩

theorem Becomes.disconnected (h : Becomes c c₁ state interest)
    (h₁ : Disconnected c₁ c') : Disconnected c c' :=
  ⟨h₁.state, h₁.interest, h₁.free, h₁.sdata, h₁.listening.trans h.listening,
    h₁.curr.trans (by rw [h.curr]), h₁.gets ∘ h.gets⟩

/-! ## Requests and responses -/

/-- Giving back the request changes the memory and the pointer to it. -/
theorem freeRequest_effect : Ensures (freeRequest H c) fun c' => ∃ heap p,
    c' = { c with heap := heap, conn := { c.conn with inReq := p } } := by
  rw [freeRequest]
  cases c.conn.inReq with
  | none => exact ⟨c.heap, c.conn.inReq, rfl⟩
  | some q =>
      refine (ensures_true _).bind fun r _ => ?_
      dsimp only
      split
      · exact ⟨c.heap, c.conn.inReq, rfl⟩
      · exact (ensures_true _).bind fun heap _ => ⟨heap, none, rfl⟩

theorem freeResponse_effect : Ensures (freeResponse H c) fun c' => ∃ heap,
    c' = { c with
      heap := heap
      conn := { c.conn with out := { c.conn.out with sdata := none } } } := by
  rw [freeResponse]
  split <;> exact (ensures_true _).bind fun heap _ => ⟨heap, rfl⟩

theorem freeRequest_stays : Ensures (freeRequest H c) (Stays c) := by
  refine freeRequest_effect.imp ?_
  rintro _ ⟨heap, p, rfl⟩
  exact ⟨rfl, rfl, rfl, rfl, rfl, id⟩

theorem freeResponse_stays : Ensures (freeResponse H c) fun c' =>
    Stays c c' ∧ c'.conn.out.sdata = none := by
  refine freeResponse_effect.imp ?_
  rintro _ ⟨heap, rfl⟩
  exact ⟨⟨rfl, rfl, rfl, rfl, rfl, id⟩, rfl⟩

theorem initResources_stays :
    Ensures (initResources H c) fun x => Stays c x.1 := by
  refine freeRequest_stays.bind fun c₁ h₁ => freeResponse_stays.bind fun c₂ h₂ => ?_
  have h : Stays c c₂ := h₁.stays h₂.1
  rcases c₂.heap.mallocRequest H with ⟨_ | q, heap⟩
  · exact ⟨h.state, h.interest, h.free, h.listening, h.curr, h.gets⟩
  · refine (ensures_true _).bind fun r _ => ?_
    exact ⟨h.state, h.interest, h.free, h.listening, h.curr, h.gets⟩

theorem disconnectConn_effect : Ensures (disconnectConn H c) (Disconnected c) := by
  refine freeRequest_stays.bind fun c₁ h₁ => freeResponse_stays.bind fun c₂ h₂ => ?_
  have h : Stays c c₂ := h₁.stays h₂.1
  exact ⟨rfl, rfl, rfl, h₂.2, h.listening, congrArg (· - 1) h.curr, h.gets⟩

theorem addResponse_replies (data : Option Addr) (n : Nat) (code : Code) :
    Ensures (addResponse c data n code) fun c' => Replies c c' ∧ c'.stats = c.stats := by
  refine (ensures_true _).bind fun x _ => ?_
  exact ⟨⟨rfl, rfl, rfl, rfl, rfl, id⟩, rfl⟩

theorem sendResponse_replies (code : Code) :
    Ensures (sendResponse c code) fun c' => Replies c c' ∧ c'.stats = c.stats :=
  addResponse_replies none 0 code

theorem sendResponse_after (h : Stays c c₁) (code : Code) :
    Ensures (sendResponse c₁ code) (Replies c) :=
  (sendResponse_replies code).imp fun _ h' => h.trans h'.1

/-- A new request is awaited, or there was no memory for it. -/
theorem setReadHeader_effect :
    Ensures (setReadHeader H c) fun c' =>
      Becomes c c' .readHeader (some .read) ∨ Disconnected c c' := by
  refine initResources_stays.bind fun ⟨c₁, ok⟩ h₁ => ?_
  cases ok with
  | true => exact .inl ⟨rfl, rfl, h₁.free, h₁.listening, h₁.curr, h₁.gets⟩
  | false => exact disconnectConn_effect.imp fun _ h => .inr (Becomes.disconnected h₁ h)

/-- A field is awaited, or there was no memory for it. -/
theorem setReadField_effect (f : Field) :
    Ensures (setReadField H c f) fun c' =>
      Becomes c c' f.state c.conn.interest ∨ Replies c c' := by
  refine (ensures_true _).bind fun ⟨q, r⟩ _ => ?_
  dsimp only
  rcases c.heap.mallocBytes H (f.length r + 1) with ⟨_ | a, heap⟩
  · refine (sendResponse_after ?_ _).imp fun _ h => .inr h
    exact ⟨rfl, rfl, rfl, rfl, rfl, id⟩
  · exact .inl ⟨rfl, rfl, rfl, rfl, rfl, id⟩

/-! ## Commands -/

theorem delItem_stays (ref : ItemRef) :
    Ensures (delItem H c ref) fun c' => Stays c c' ∧ c'.stats = c.stats := by
  refine (ensures_true _).bind fun it _ => (ensures_true _).bind fun heap _ => ?_
  exact ⟨⟨rfl, rfl, rfl, rfl, rfl, id⟩, rfl⟩

theorem evict_stays (ref : ItemRef) :
    Ensures (evict H c ref) fun c' => Stays c c' ∧ c'.stats = c.stats := by
  refine (delItem_stays ref).bind fun c₁ h => ?_
  obtain ⟨h, hstats⟩ := h
  exact ⟨⟨h.state, h.interest, h.free, h.listening, h.curr, h.gets⟩, hstats⟩

/-- What `CMD_GET` does besides counting itself. -/
structure Got (c c' : Ctx σ) : Prop where
  state : c'.conn.state = .sendHeader
  interest : c'.conn.interest = some .write
  free : c'.conn.free = c.conn.free
  listening : c'.conn.listening = c.conn.listening
  curr : c'.stats.currConnections = c.stats.currConnections
  gets : c'.stats.cmdGet = c.stats.cmdGet
  answers : c'.stats.getHits + c'.stats.getMisses =
    c.stats.getHits + c.stats.getMisses + 1

theorem getKeyNotexists_got (h : Stays c c₁) (hstats : c₁.stats = c.stats) :
    Ensures (getKeyNotexists c₁) (Got c) := by
  refine (sendResponse_replies _).imp fun c' h' => ?_
  obtain ⟨h', hc'⟩ := h'
  refine ⟨h'.state, h'.interest, h'.free.trans h.free, h'.listening.trans h.listening,
    h'.curr.trans h.curr, ?_, ?_⟩
  · rw [hc', ← hstats]
    rfl
  · rw [hc', ← hstats]
    exact (UInt64.add_assoc ..).symm

theorem getItem_got (r : Request) : Ensures (getItem H c r) (Got c) := by
  refine (ensures_true _).bind fun key _ => (ensures_true _).bind fun ref _ => ?_
  cases ref with
  | none => exact getKeyNotexists_got (.refl c) rfl
  | some ref =>
      refine (ensures_true _).bind fun it _ => ?_
      cases it.val with
      | none => trivial
      | some cachedReq =>
          refine (ensures_true _).bind fun cached _ => (ensures_true _).bind
            fun extra _ => (ensures_true _).bind fun val _ => ?_
          cases val with
          | none => trivial
          | some val =>
              dsimp only
              split
              · exact (evict_stays ref).bind fun c₁ h => getKeyNotexists_got h.1 h.2
              · refine (addResponse_replies ..).bind fun c₁ h => ?_
                obtain ⟨h, hstats⟩ := h
                refine .pure ⟨h.state, h.interest, h.free, h.listening, h.curr, ?_, ?_⟩
                · change c₁.stats.cmdGet = _
                  rw [hstats]
                  rfl
                · change c₁.stats.getHits + c₁.stats.getMisses = _
                  rw [hstats]
                  change c.stats.getHits + 1 + c.stats.getMisses = _
                  rw [UInt64.add_assoc, UInt64.add_comm 1, UInt64.add_assoc]

theorem executeGet_replies (r : Request) : Ensures (executeGet H c r) (Replies c) := by
  refine (getItem_got r).imp fun c' h => ?_
  refine ⟨h.state, h.interest, h.free, h.listening, h.curr, fun hbalanced => ?_⟩
  rw [Stats.Balanced, h.gets, h.answers]
  exact congrArg (· + 1) hbalanced

theorem replaceItem_stays (q : Addr) (key : Option Bytes) (klen : Nat) :
    Ensures (replaceItem H c q key klen) (Stays c) := by
  refine (ensures_true _).bind fun ref _ => ?_
  cases ref with
  | none => trivial
  | some ref =>
      refine (delItem_stays ref).bind fun c₁ h => ?_
      obtain ⟨h, -⟩ := h
      exact ⟨h.state, h.interest, h.free, h.listening, h.curr, h.gets⟩

theorem keepRequest_replies (q : Addr) : Ensures (keepRequest c q) (Replies c) := by
  refine (ensures_true _).bind fun r _ => sendResponse_after ?_ _
  exact ⟨rfl, rfl, rfl, rfl, rfl, id⟩

theorem setItem_replies (q : Addr) (r : Request) :
    Ensures (setItem H c q r) (Replies c) := by
  refine (ensures_true _).bind fun key _ => (ensures_true _).bind
    fun ⟨ret, cache, mem⟩ _ => ?_
  have hstored : Stays c (c.withStore { c.heap with mem := mem } cache) :=
    ⟨rfl, rfl, rfl, rfl, rfl, id⟩
  cases ret with
  | herror => exact sendResponse_after hstored _
  | hexists =>
      exact (replaceItem_stays q key r.keyLength).bind fun c₁ h =>
        (keepRequest_replies q).imp fun _ h' => hstored.trans (h.trans h')
  | hsuccess => exact (keepRequest_replies q).imp fun _ h => hstored.trans h

theorem executeSet_replies (q : Addr) (r : Request) :
    Ensures (executeSet H c q r) (Replies c) := by
  have hcounted : Stays c (c.withStats fun s => { s with cmdSet := s.cmdSet + 1 }) :=
    ⟨rfl, rfl, rfl, rfl, rfl, id⟩
  rw [executeSet, validateSet]
  split
  · exact sendResponse_after hcounted _
  · refine (ensures_true _).bind fun extra _ => (ensures_true _).bind fun val _ => ?_
    cases val with
    | none => exact sendResponse_after hcounted _
    | some val => exact (setItem_replies q r).imp fun _ h => hcounted.trans h

theorem executeDelete_replies (r : Request) :
    Ensures (executeDelete H c r) (Replies c) := by
  refine (ensures_true _).bind fun key _ => (ensures_true _).bind fun ref _ => ?_
  cases ref with
  | none => exact sendResponse_after (.refl c) _
  | some ref => exact (evict_stays ref).bind fun _ h => sendResponse_after h.1 _

theorem executeFlushAll_replies : Ensures (executeFlushAll H c) (Replies c) := by
  refine (ensures_true _).bind fun ⟨cache, heap⟩ _ => sendResponse_after ?_ _
  exact ⟨rfl, rfl, rfl, rfl, rfl, id⟩

theorem executeChgSetting_replies (r : Request) :
    Ensures (executeChgSetting c r) (Replies c) := by
  rw [executeChgSetting]
  split
  · exact sendResponse_after (.refl c) _
  · refine (ensures_true _).bind fun key _ => (ensures_true _).bind fun names _ => ?_
    split
    · refine (ensures_true _).bind fun data _ => (ensures_true _).bind fun val _ => ?_
      cases val with
      | none => exact sendResponse_after (.refl c) _
      | some val =>
          refine sendResponse_after ?_ _
          exact ⟨rfl, rfl, rfl, rfl, rfl, id⟩
    · exact sendResponse_after (.refl c) _

theorem executeGetSetting_replies (r : Request) :
    Ensures (executeGetSetting H c r) (Replies c) := by
  refine (ensures_true _).bind fun key _ => (ensures_true _).bind fun names _ => ?_
  split
  · rcases c.heap.mallocBytes H 8 with ⟨_ | ival, heap⟩
    · refine sendResponse_after ?_ _
      exact ⟨rfl, rfl, rfl, rfl, rfl, id⟩
    · refine (addResponse_replies ..).imp fun c' h => ?_
      exact ⟨h.1.state, h.1.interest, h.1.free, h.1.listening, h.1.curr, h.1.gets⟩
  · exact sendResponse_after (.refl c) _

theorem executeGetStats_replies : Ensures (executeGetStats H c env) (Replies c) := by
  rw [executeGetStats]
  rcases c.heap.mallocBytes H lightcacheStatsSize with ⟨_ | sval, heap⟩
  · refine sendResponse_after ?_ _
    exact ⟨rfl, rfl, rfl, rfl, rfl, id⟩
  · refine (ensures_true _).bind fun bytes _ => (addResponse_replies ..).imp fun c' h => ?_
    exact ⟨h.1.state, h.1.interest, h.1.free, h.1.listening, h.1.curr, h.1.gets⟩

/-- Every exit of `execute_cmd` leaves a response to be sent. -/
theorem executeCmd_replies : Ensures (executeCmd H c env) (Replies c) := by
  rw [executeCmd]
  split
  · trivial
  · refine (ensures_true _).bind fun ⟨q, r⟩ _ => ?_
    have hnoted : Stays c (noteExecuted { c with
        heap := c.heap.writeRequest q { r with received := env.clock 1 } }
        { r with received := env.clock 1 }) := ⟨rfl, rfl, rfl, rfl, rfl, id⟩
    dsimp only
    split
    · exact (executeGet_replies _).imp fun _ h => hnoted.trans h
    · exact (executeSet_replies _ _).imp fun _ h => hnoted.trans h
    · exact (executeDelete_replies _).imp fun _ h => hnoted.trans h
    · exact executeFlushAll_replies.imp fun _ h => hnoted.trans h
    · exact (executeChgSetting_replies _).imp fun _ h => hnoted.trans h
    · exact (executeGetSetting_replies _).imp fun _ h => hnoted.trans h
    · exact executeGetStats_replies.imp fun _ h => hnoted.trans h
    · exact sendResponse_after hnoted _

/-! ## Reading -/

/-- The event that a state waits for. -/
def awaited : ConnState → Option Event
  | .readHeader | .readKey | .readData | .readExtra => some .read
  | .sendHeader | .sendData => some .write
  | .connClosed | .cmdReceived | .cmdSent => none

theorem awaited_field (f : Field) : awaited f.state = some .read := by
  cases f <;> rfl

/-- The connection waits for an event, and has registered for it. -/
def Awaits (c c' : Ctx σ) : Prop :=
  ∃ ev, awaited c'.conn.state = some ev ∧ Becomes c c' c'.conn.state (some ev)

theorem Becomes.awaits {ev : Event} (h : Becomes c c' state (some ev))
    (hstate : awaited state = some ev) : Awaits c c' :=
  ⟨ev, by rw [h.state, hstate], rfl, h.interest, h.free, h.listening, h.curr, h.gets⟩

theorem countBytes_stays (q : Addr) (nbytes : Int) (total : Nat) :
    Ensures (countBytes c q nbytes total) fun x => Stays c x.1 := by
  rw [countBytes]
  refine (ensures_true _).bind fun r _ => ?_
  dsimp only
  split <;> exact ⟨rfl, rfl, rfl, rfl, rfl, id⟩

theorem readNbytes_stays (target : Option Field) (total : Nat) (res : ReadResult) :
    Ensures (readNbytes c target total res) fun x => Stays c x.1 := by
  refine (ensures_true _).bind fun ⟨q, r⟩ _ => ?_
  cases res with
  | eof => exact .refl c
  | wouldBlock => exact .refl c
  | error => exact countBytes_stays q _ _
  | byte b =>
      refine (ensures_true _).bind fun heap _ => (countBytes_stays q _ _).imp fun x h => ?_
      exact ⟨h.state, h.interest, h.free, h.listening, h.curr, h.gets⟩

/-- A call of `try_read_request` up to `execute_cmd`. -/
def Receives (c : Ctx σ) (x : Ctx σ × SocketState × Bool) : Prop :=
  if x.2.2 then Becomes c x.1 .cmdReceived c.conn.interest
  else Stays c x.1 ∨ (∃ f : Field, Becomes c x.1 f.state c.conn.interest) ∨
    Replies c x.1

theorem setCmdReceived_receives (h : Stays c c₁) : Receives c (setCmdReceived c₁) :=
  ⟨rfl, h.interest, h.free, h.listening, h.curr, h.gets⟩

theorem setReadField_receives (h : Stays c c₁) (f : Field) (ret : SocketState) :
    Ensures (setReadField H c₁ f >>= fun c' => pure (c', ret, false)) (Receives c) := by
  refine (setReadField_effect f).bind fun c' h' => ?_
  rcases h' with h' | h'
  · refine .inr (.inl ⟨f, Stays.trans h ?_⟩)
    rw [← h.interest]
    exact h'
  · exact .inr (.inr (Stays.trans h h'))

theorem readHeader_receives (res : ReadResult) :
    Ensures (readHeader H c res) (Receives c) := by
  refine (readNbytes_stays _ _ _).bind fun ⟨c₁, ret⟩ h₁ => ?_
  dsimp only
  split
  · exact .inl h₁
  · refine (ensures_true _).bind fun ⟨q, r⟩ _ => ?_
    dsimp only
    have h : Stays c { c₁ with heap := c₁.heap.writeRequest q (convertHeader r) } :=
      ⟨h₁.state, h₁.interest, h₁.free, h₁.listening, h₁.curr, h₁.gets⟩
    split
    · exact (sendResponse_after h _).bind fun c' h' => .inr (.inr h')
    · split
      · exact setCmdReceived_receives h
      · exact setReadField_receives h _ _

theorem readField_receives (f : Field) (next : Option Field) (res : ReadResult) :
    Ensures (readField H c f next res) (Receives c) := by
  refine (ensures_true _).bind fun _ _ => (readNbytes_stays _ _ _).bind
    fun ⟨c₁, ret⟩ h₁ => ?_
  dsimp only
  split
  · exact .inl h₁
  · refine (ensures_true _).bind fun _ _ => ?_
    cases next with
    | none => exact setCmdReceived_receives h₁
    | some g =>
        dsimp only
        split
        · exact setCmdReceived_receives h₁
        · exact setReadField_receives h₁ _ _

theorem readRequest_receives (res : ReadResult) :
    Ensures (readRequest H c res) (Receives c) := by
  rw [readRequest]
  split
  · exact readHeader_receives res
  · exact (ensures_true _).bind fun _ _ => readField_receives _ _ _
  · exact (ensures_true _).bind fun _ _ => readField_receives _ _ _
  · exact readField_receives _ _ _
  · exact (sendResponse_after (.refl c) _).bind fun c' h' => .inr (.inr h')

theorem tryReadRequest_awaits (hstate : awaited c.conn.state = some .read)
    (hinterest : c.conn.interest = some .read) :
    Ensures (tryReadRequest H c env) fun x => Awaits c x.1 := by
  refine (readRequest_receives _).bind fun ⟨c₁, ret, received⟩ h₁ => ?_
  cases received with
  | true =>
      refine executeCmd_replies.bind fun c' h' => ?_
      rw [Receives, if_pos rfl] at h₁
      have hreplies : Replies c c' := ⟨h'.state, h'.interest, h'.free.trans h₁.free,
        h'.listening.trans h₁.listening, h'.curr.trans h₁.curr, h'.gets ∘ h₁.gets⟩
      exact hreplies.awaits rfl
  | false =>
      rw [Receives, if_neg (by simp), hinterest] at h₁
      rcases h₁ with h₁ | ⟨f, h₁⟩ | h₁
      · exact Becomes.awaits (hinterest ▸ h₁) hstate
      · exact h₁.awaits (awaited_field f)
      · exact h₁.awaits rfl

/-! ## Sending -/

theorem sendNbytes_stays (bytes : Except Fault Bytes) (total : Nat)
    (res : WriteResult) : Ensures (sendNbytes c bytes total res) fun x => Stays c x.1 := by
  cases res with
  | wouldBlock => exact .refl c
  | error => exact .refl c
  | sent =>
      refine (ensures_true _).bind fun src _ => ?_
      cases src[c.conn.out.sbytes]? with
      | none => trivial
      | some b => exact ⟨rfl, rfl, rfl, rfl, rfl, id⟩

theorem nextRequest_effect (h : Stays c c₁) {ret : SocketState} (hret : ret ≠ .sendErr) :
    Ensures (nextRequest H c₁ >>= fun c' => pure (c', ret)) fun x =>
      x.2 ≠ .sendErr ∧ (Awaits c x.1 ∨ Disconnected c x.1) := by
  refine setReadHeader_effect.bind fun c' h' => ?_
  have hsent : Becomes c (c₁.withConn fun conn => { conn with state := .cmdSent })
      .cmdSent c.conn.interest :=
    ⟨rfl, h.interest, h.free, h.listening, h.curr, h.gets⟩
  refine ⟨hret, ?_⟩
  rcases h' with h' | h'
  · have hreads : Becomes c c' .readHeader (some .read) :=
      ⟨h'.state, h'.interest, h'.free.trans hsent.free,
        h'.listening.trans hsent.listening, h'.curr.trans hsent.curr, h'.gets ∘ hsent.gets⟩
    exact .inl (hreads.awaits rfl)
  · exact .inr (hsent.disconnected h')

/-- A failed write leaves the connection to `event_handler`. -/
theorem trySendResponse_effect (res : WriteResult)
    (hinterest : c.conn.interest = some .write) :
    Ensures (trySendResponse H c res) fun x =>
      Stays c x.1 ∨ x.2 ≠ .sendErr ∧ (Awaits c x.1 ∨ Disconnected c x.1) := by
  rw [trySendResponse]
  split
  · refine (sendNbytes_stays _ _ _).bind fun ⟨c₁, ret⟩ h₁ => ?_
    dsimp only
    split
    · exact .inl h₁
    · rename_i hdone
      obtain rfl : ret = .sendCompleted := not_not.mp hdone
      refine Ensures.imp (P := fun x => x.2 ≠ .sendErr ∧ (Awaits c x.1 ∨
        Disconnected c x.1)) ?_ fun _ => .inr
      split
      · have hsends : Becomes c (c₁.withConn fun conn => { conn with state := .sendData })
            .sendData (some .write) :=
          ⟨rfl, h₁.interest.trans hinterest, h₁.free, h₁.listening, h₁.curr, h₁.gets⟩
        exact ⟨by simp, .inl (hsends.awaits rfl)⟩
      · exact nextRequest_effect h₁ (by simp)
  · refine (sendNbytes_stays _ _ _).bind fun ⟨c₁, ret⟩ h₁ => ?_
    dsimp only
    split
    · exact .inl h₁
    · rename_i hdone
      obtain rfl : ret = .sendCompleted := not_not.mp hdone
      exact (nextRequest_effect h₁ (by simp)).imp fun _ => .inr
  · exact (sendResponse_after (.refl c) _).bind fun c' h' =>
      .inr ⟨by simp, .inl (Becomes.awaits h' rfl)⟩

/-- An event that the connection waits for leaves it waiting, or closes it. -/
theorem handleClient_effect {ev : Event} (hstate : awaited c.conn.state = some ev)
    (hinterest : c.conn.interest = some ev) :
    Ensures (handleClient H c ev env) fun c' => Awaits c c' ∨ Disconnected c c' := by
  rw [handleClient]
  split
  · exact .inl ⟨ev, hstate, rfl, hinterest, rfl, rfl, rfl, id⟩
  · dsimp only
    have hsame : ∀ {c'}, Awaits (c.withConn fun conn =>
        { conn with lastHeard := env.clock 0 }) c' → Awaits c c' :=
      fun ⟨ev, hev, h⟩ =>
        ⟨ev, hev, rfl, h.interest, h.free, h.listening, h.curr, h.gets⟩
    have hgone : ∀ {c'}, Disconnected (c.withConn fun conn =>
        { conn with lastHeard := env.clock 0 }) c' → Disconnected c c' :=
      fun h => ⟨h.state, h.interest, h.free, h.sdata, h.listening, h.curr, h.gets⟩
    cases ev with
    | read =>
        refine (tryReadRequest_awaits (c := c.withConn fun conn =>
          { conn with lastHeard := env.clock 0 }) hstate hinterest).bind fun ⟨c₁, ret⟩ h₁ => ?_
        dsimp only at h₁ ⊢
        obtain ⟨ev, hev, h₁⟩ := hsame h₁
        split
        · exact disconnectConn_effect.imp fun c' h' => .inr (h₁.disconnected h')
        · exact .inl ⟨ev, hev, h₁⟩
    | write =>
        refine (trySendResponse_effect (c := c.withConn fun conn =>
          { conn with lastHeard := env.clock 0 }) env.write hinterest).bind fun ⟨c₁, ret⟩ h₁ => ?_
        dsimp only at h₁ ⊢
        split
        · rename_i herr
          have hstays : Stays c c₁ := by
            obtain ⟨hst, hin, hfree, hlisten, hcurr, hgets⟩ :=
              h₁.resolve_right fun h => h.1 herr
            exact ⟨hst, hin, hfree, hlisten, hcurr, hgets⟩
          exact disconnectConn_effect.imp fun c' h' => .inr (Becomes.disconnected hstays h')
        · rcases h₁ with h₁ | ⟨-, h₁⟩
          · exact .inl ⟨.write, by rw [h₁.state]; exact hstate, rfl,
              h₁.interest.trans hinterest, h₁.free, h₁.listening, h₁.curr, h₁.gets⟩
          · exact h₁.imp hsame hgone

end Lightcache.Server
