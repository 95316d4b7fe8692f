import Lightcache.Server.Round

/-!
# The states of the connections in a poll batch

The poller reports events in batches, and an event may be left over for a
connection that has been closed earlier in its batch.  The handler ignores it, as
long as the structure has not been handed out again by then.
-/

namespace Lightcache.Server

open Lightcache Lightcache.Foundation Lightcache.Hashtab

/-- The server in the middle of a batch, and the structures closed since it began. -/
structure Batch (σ : Type) where
  state : State σ
  closed : List Addr

inductive Delivery where
  /-- The poller returns with a new batch. -/
  | poll
  | ready (a : Addr) (ev : Event) (env : Env)
  /-- The sweep between two batches. -/
  | idle (env : Env)

variable {σ : Type}

/-- The event is registered for the descriptor, or left over for a closed connection. -/
def Reported (b : Batch σ) (a : Addr) (ev : Event) : Prop :=
  a ∈ b.state.conns ∧ ((b.state.conn a).interest = some ev ∨ a ∈ b.closed)

instance (b : Batch σ) (a : Addr) (ev : Event) : Decidable (Reported b a ev) :=
  inferInstanceAs (Decidable (_ ∧ _))

variable (H : Host σ)

/-- The handler is called without another look at the structure. -/
def deliver (b : Batch σ) : Delivery → Except Fault (Batch σ)
  | .poll => .ok { b with closed := [] }
  | .ready a ev env =>
      if Reported b a ev then do
        let s ← eventHandler H b.state a ev env
        return ⟨s, if (s.conn a).state = .connClosed then a :: b.closed else b.closed⟩
      else .ok b
  | .idle env => do
      let s ← disconnectIdleConns H b.state env
      return ⟨s, []⟩

variable {H} {b b' : Batch σ} {s s' : State σ} {a : Addr} {c : Ctx σ} {ev : Event} {env : Env}
  {d : Delivery}

/-! ## What the handler does in its states -/

/-- `event_handler` and what it calls have a branch for the event. -/
def Handled (b : Batch σ) : Delivery → Prop
  | .ready a ev _ => Reported b a ev → (b.state.conn a).state = .connClosed ∨
      if (b.state.conn a).listening then ev = .read else awaited (b.state.conn a).state = some ev
  | _ => True

/-- The faults that end the process. -/
def Crash (e : Fault) : Prop := e = .nullDeref ∨ e = .nullItemKey

/-- The states of all connections between two events, and in the next command. -/
structure InOrder (H : Host σ) (s : State σ) : Prop where
  waiting : ∀ a ∈ s.conns, (s.conn a).free = false → (s.conn a).listening = false →
    (s.conn a).state ∈ [.readHeader, .readKey, .readData, .readExtra] ∧
        (s.conn a).interest = some .read ∨
      (s.conn a).state ∈ [.sendHeader, .sendData] ∧ (s.conn a).interest = some .write
  /-- The connection at `a` calls `execute_cmd` when `try_read_request` asks for it. -/
  entered : ∀ a ∈ s.conns, Conn.client (s.conn a) = true → ∀ env c ret,
    readRequest H (touched (s.ctx a) env) env.read = .ok (c, ret, true) →
      c.conn.state = .cmdReceived ∧
        Post (executeCmd H c env) (fun c' => c'.conn.state = .sendHeader) Crash

/-! ## What this rests on -/

/-- The byte to be read or written has its place. -/
structure Placed (s : State σ) (a : Addr) : Prop where
  /-- A request has not been counted beyond its part. -/
  room : ∀ q r, (s.conn a).inReq = some q → s.heap.reqs q = some r →
    (s.conn a).interest = some .read → r.rbytes ≤ total r (target (s.conn a).state)
  /-- A response is still in its buffer. -/
  byte : (s.conn a).interest = some .write → ∃ src x, (outgoing (s.ctx a)).1 = .ok src ∧
    src[(s.conn a).out.sbytes]? = some x

/-- What the states of the connections rest on. -/
def Orderly (H : Host σ) (b : Batch σ) : Delivery → Prop
  | .ready a ev env => Reported b a ev →
      -- a structure that has been handed out again is not taken for the closed one
      ((b.state.conn a).interest = some ev ∨ (b.state.conn a).state = .connClosed) ∧
        Careful H b.state (.ready a ev env) ∧ Placed b.state a
  | _ => True

theorem CommandFault.crash {ht : Cache} {f : Fields} {e : Fault} (h : CommandFault ht f e) :
    Crash e := by
  rcases h with ⟨rfl, -⟩ | ⟨rfl, -, -⟩
  · exact .inl rfl
  · exact .inr rfl

/-- With the bytes in place only commands fail. -/
theorem Placed.crash (h : Placed s a) {e : Fault} (he : ClientFault H (s.ctx a) env e) :
    Crash e := by
  cases he with
  | index held reading beyond =>
      exact absurd (h.room _ _ held.inReq held.req reading.interest) (not_le.mpr beyond)
  | command run fault => exact fault.crash
  | send sending source fault =>
      obtain ⟨src, x, hsource, -⟩ := h.byte sending.interest
      rw [hsource] at source
      cases source
  | beyond sending source byte =>
      obtain ⟨src, x, hsource, hx⟩ := h.byte sending.interest
      obtain rfl := Except.ok.inj (source.symm.trans hsource)
      cases hx.symm.trans byte

theorem Sound.entered (hs : Sound H s) (ha : a ∈ s.conns)
    (hclient : Conn.client (s.conn a) = true) {ret : SocketState}
    (hrun : readRequest H (touched (s.ctx a) env) env.read = .ok (c, ret, true)) :
    c.conn.state = .cmdReceived ∧
      Post (executeCmd H c env) (fun c' => c'.conn.state = .sendHeader) Crash := by
  have hstate := readRequest_received hrun
  obtain ⟨q, r, f, -, hserving, -, -⟩ := hs.executing ha hclient hrun
  refine ⟨hstate, ?_⟩
  exact (((executeCmd_post hserving hstate env).mono (fun _ _ => trivial)
    fun e he => CommandFault.crash he).and_ensures executeCmd_replies).imp
      fun _ h => h.2.state

theorem Phased.inOrder (hp : Phased s) (hs : Sound H s) : InOrder H s where
  waiting a ha hfree hlisten := by
    obtain ⟨ev, hstate, hinterest⟩ := (hp a ha).waiting (by simp [Conn.client, hfree, hlisten])
    cases ev with
    | read => exact .inl ⟨awaited_read hstate, hinterest⟩
    | write => exact .inr ⟨awaited_write hstate, hinterest⟩
  entered a ha hclient env c ret hrun := hs.entered ha hclient hrun

/-! ## Every batch -/

/-- What a batch keeps. -/
def Settled (H : Host σ) (b : Batch σ) : Prop := Sound H b.state ∧ Phased b.state

theorem deliver_step (hd : Reported b a ev) (ho : Orderly H b (.ready a ev env)) :
    eventHandler H b.state a ev env = step H b.state (.ready a ev env) := by
  rw [step, if_pos ⟨hd.1, (ho hd).1⟩]

theorem Settled.deliver (h : Settled H b) (ho : Orderly H b d) :
    Post (deliver H b d) (Settled H) Crash := by
  obtain ⟨hs, hp⟩ := h
  cases d with
  | poll => exact ⟨hs, hp⟩
  | idle env =>
      have hstep := (hs.step_fails (i := .idle env) trivial).and_ensures (hp.step (.idle env))
      exact (hstep.mono (fun _ h => h) fun _ he => he.elim).bind fun s hs => hs
  | ready a ev env =>
      rw [Server.deliver]
      split
      · rename_i hd
        obtain ⟨-, hcare, hplace⟩ := ho hd
        rw [deliver_step hd ho]
        have hstep := (hs.step_fails hcare).and_ensures (hp.step (.ready a ev env))
        exact (hstep.mono (fun _ h => h) fun _ he => hplace.crash he).bind fun s hs => hs
      · exact ⟨hs, hp⟩

theorem Settled.handled (h : Settled H b) (ho : Orderly H b d) : Handled b d := by
  cases d with
  | poll => trivial
  | idle env => trivial
  | ready a ev env =>
      intro hd
      obtain ⟨hev, -⟩ := ho hd
      refine or_iff_not_imp_left.mpr fun hclosed => ?_
      split
      · rename_i hlisten
        have hpoll := (h.2 a hd.1).poll hlisten
        exact Option.some.inj ((hev.resolve_right hclosed).symm.trans hpoll)
      · rename_i hlisten
        exact (h.2.delivered hd.1 hev hclosed (by simpa using hlisten)).2.1

section Runs

variable {settings : Settings} {heap : Heap σ} {fd : Nat} {ds : List Delivery}

/--
While leftover events only meet structures that are still closed, and the memory of
the connections is left alone, every connection waits for the event of its state, and
no event or command comes in a state that has no branch for it.
-/
theorem states_in_order (hboot : Boot H heap)
    (hstart : start H settings heap fd env = .ok (some s))
    (hmeets : Meets (deliver H) (Orderly H) ⟨s, []⟩ ds) :
    Post (run (deliver H) ⟨s, []⟩ ds) (fun b => InOrder H b.state) Crash ∧
      Meets (deliver H) Handled ⟨s, []⟩ ds := by
  have hsettled : Settled H ⟨s, []⟩ := ⟨sound_start hboot hstart, phased_start hstart⟩
  have hstep : ∀ b d, Settled H b → Orderly H b d → Post (deliver H b d) (Settled H) Crash :=
    fun b d h ho => h.deliver ho
  exact ⟨(run_post hstep hsettled hmeets).imp fun b h => h.2.inOrder h.1,
    hmeets.of_post hstep (fun b d h ho => h.handled ho) hsettled⟩

/-- The event of the step, in a batch. -/
def Delivery.of : Input → Delivery
  | .ready a ev env => .ready a ev env
  | .idle env => .idle env

/-- Whether a delivery is orderly. -/
def orderlyTest (H : Host σ) (b : Batch σ) : Delivery → Bool
  | .ready a ev env => !decide (Reported b a ev) ||
      ((b.state.conn a).interest == some ev || (b.state.conn a).state == .connClosed) &&
        carefulTest H b.state (.ready a ev env) &&
          ((b.state.conn a).interest != some .read ||
            match (b.state.conn a).inReq.bind b.state.heap.reqs with
            | some r => decide (r.rbytes ≤ total r (target (b.state.conn a).state))
            | none => true) &&
          ((b.state.conn a).interest != some .write ||
            returns (outgoing (b.state.ctx a)).1 fun src =>
              src[(b.state.conn a).out.sbytes]?.isSome)
  | _ => true

theorem orderly_of_test (h : orderlyTest H b d = true) : Orderly H b d := by
  cases d with
  | poll => trivial
  | idle env => trivial
  | ready a ev env =>
      intro hd
      simp only [orderlyTest, hd, decide_true, Bool.not_true, Bool.false_or, Bool.and_eq_true]
        at h
      obtain ⟨⟨⟨hev, hcare⟩, hroom⟩, hbyte⟩ := h
      refine ⟨by simpa using hev, careful_of_test hcare, fun q r hin hr hread => ?_,
        fun hwrite => ?_⟩
      · simpa [hread, hin, hr] using hroom
      · rw [hwrite, bne_self_eq_false, Bool.false_or] at hbyte
        obtain ⟨src, hsource, hsome⟩ := exists_of_returns hbyte
        obtain ⟨x, hx⟩ := Option.isSome_iff_exists.mp hsome
        exact ⟨src, x, hsource, hx⟩

/--
The second client takes its answer, and closes its connection; an event is left over
for it in the same batch.
-/
def leavesInBatch : List Delivery :=
  (twoClients ++ take 6 8).map Delivery.of ++
    [.poll, .ready 6 .read (hearing .eof), .ready 6 .write (hearing .eof)]

theorem states_in_order_two :
    ∃ s, start (Host.lp64 Allocator.unlimited) ⟨0, 2⟩ (emptyHeap ∅) 3
        (hearing .eof) = .ok (some s) ∧
      ∃ b, run (deliver (Host.lp64 Allocator.unlimited)) ⟨s, []⟩ leavesInBatch = .ok b ∧
        InOrder (Host.lp64 Allocator.unlimited) b.state ∧
        Meets (deliver (Host.lp64 Allocator.unlimited)) Handled ⟨s, []⟩ leavesInBatch := by
  obtain ⟨s, hstart, htest⟩ : ∃ s, start (Host.lp64 Allocator.unlimited) ⟨0, 2⟩
      (emptyHeap ∅) 3 (hearing .eof) = .ok (some s) ∧
      (meetsTest (deliver (Host.lp64 Allocator.unlimited))
        (orderlyTest (Host.lp64 Allocator.unlimited)) ⟨s, []⟩ leavesInBatch &&
        returns (run (deliver (Host.lp64 Allocator.unlimited)) ⟨s, []⟩ leavesInBatch)
          fun b => b.closed == [6, 6]) = true := ⟨_, rfl, by decide +kernel⟩
  rw [Bool.and_eq_true] at htest
  obtain ⟨b, hb, -⟩ := exists_of_returns htest.2
  obtain ⟨horder, hhandled⟩ := states_in_order (boot_emptyHeap rfl) hstart
    (meets_of_test htest.1 fun _ _ _ => orderly_of_test)
  exact ⟨s, hstart, b, hb, horder.of_ok hb, hhandled⟩

/-- In one batch a client closes its connection, and a new one gets the structure. -/
def reusedInBatch : List Delivery :=
  [.ready 1 .read (hearing .wouldBlock), .poll, .ready 4 .read (hearing .eof),
    .ready 1 .read (hearing .wouldBlock)]

/-- Then the event that is left over for the closed connection is answered. -/
theorem leftover_answered :
    ∃ s, start (Host.lp64 Allocator.unlimited) ⟨0, 2⟩ (emptyHeap ∅) 3
        (hearing .eof) = .ok (some s) ∧
      ∃ b, run (deliver (Host.lp64 Allocator.unlimited)) ⟨s, []⟩ reusedInBatch = .ok b ∧
        ¬ Handled b (.ready 4 .write (hearing .eof)) ∧
        ∃ b', deliver (Host.lp64 Allocator.unlimited) b (.ready 4 .write (hearing .eof)) =
            .ok b' ∧ (b'.state.conn 4).out.retcode = Code.invalidState.toByte := by
  refine ⟨_, rfl, Exists.imp (fun b hb => ⟨hb.1, ?_⟩) (exists_of_returns
    (p := fun b => decide (Reported b 4 .write) && (b.state.conn 4).state == .readHeader &&
      !(b.state.conn 4).listening &&
      returns (deliver (Host.lp64 Allocator.unlimited) b (.ready 4 .write (hearing .eof)))
        fun b' => (b'.state.conn 4).out.retcode == Code.invalidState.toByte) ?_)⟩
  · have htest := hb.2
    simp only [Bool.and_eq_true, decide_eq_true_eq, beq_iff_eq, Bool.not_eq_true'] at htest
    obtain ⟨⟨⟨hreported, hstate⟩, hlisten⟩, hanswer⟩ := htest
    obtain ⟨b', hb', hcode⟩ := exists_of_returns hanswer
    refine ⟨fun hhandled => ?_, b', hb', beq_iff_eq.mp hcode⟩
    have := hhandled hreported
    rw [hstate, hlisten] at this
    simp [awaited] at this
  · decide +kernel

end Runs

end Lightcache.Server
