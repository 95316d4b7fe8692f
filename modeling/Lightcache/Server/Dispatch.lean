import Lightcache.Server.Invariant

/-!
# From an event to its command

When an event completes a request, the step of the server is the branch of
`execute_cmd` for its opcode, whatever the state of the server is.
-/

namespace Lightcache.Server

open Lightcache Lightcache.Foundation Lightcache.Hashtab

variable {σ : Type} {H : Host σ} {s : State σ} {a : Addr} {c c₁ : Ctx σ} {q : Addr}
  {r : Request} {f : Fields} {env : Env}

/-- The `switch` of `execute_cmd`. -/
def interpret (H : Host σ) (c : Ctx σ) (q : Addr) (r : Request) (env : Env) :
    Except Fault (Ctx σ) :=
  match ProtocolCommand.ofByte r.opcode with
  | some .cmdGet => executeGet H c r
  | some .cmdSet => executeSet H c q r
  | some .cmdDelete => executeDelete H c r
  | some .cmdFlushAll => executeFlushAll H c
  | some .cmdChgSetting => executeChgSetting c r
  | some .cmdGetSetting => executeGetSetting H c r
  | some .cmdGetStats => executeGetStats H c env
  | none => sendResponse c .invalidCommand

/-- The event completes the request `r` at `q`, which is executed in the context `c`. -/
structure Dispatches (H : Host σ) (s : State σ) (a : Addr) (env : Env) (c : Ctx σ)
    (q : Addr) (r : Request) : Prop where
  mem : a ∈ s.conns
  polled : (s.conn a).interest = some .read
  client : (s.conn a).listening = false
  executes : ∃ c₁ r₁ f, Executes H (s.ctx a) env c₁ q r₁ f ∧ c = arrived c₁ q r₁ env ∧
    r = { r₁ with received := env.clock 1 }

/-- Only a complete read leads to a command. -/
def Completes (c : Ctx σ) (x : Ctx σ × SocketState × Bool) : Prop :=
  x.2.2 = true → x.2.1 = .readCompleted ∧ awaited c.conn.state = some .read

theorem setReadField_completes (c c₁ : Ctx σ) (g : Field) (ret : SocketState) :
    Ensures (setReadField H c₁ g >>= fun c' => pure (c', ret, false)) (Completes c) :=
  (ensures_true _).bind fun _ _ h => nomatch h

theorem readHeader_completes (hstate : awaited c.conn.state = some .read)
    (res : ReadResult) : Ensures (readHeader H c res) (Completes c) := by
  refine (ensures_true _).bind fun ⟨c₁, ret⟩ _ => ?_
  dsimp only
  split
  · exact fun h => nomatch h
  · refine (ensures_true _).bind fun _ _ => ?_
    split
    · exact (ensures_true _).bind fun _ _ h => nomatch h
    · split
      · exact fun _ => ⟨rfl, hstate⟩
      · exact setReadField_completes _ _ _ _

theorem readField_completes (hstate : awaited c.conn.state = some .read) (g : Field)
    (next : Option Field) (res : ReadResult) :
    Ensures (readField H c g next res) (Completes c) := by
  refine (ensures_true _).bind fun _ _ => (ensures_true _).bind fun ⟨c₁, ret⟩ _ => ?_
  dsimp only
  split
  · exact fun h => nomatch h
  · refine (ensures_true _).bind fun _ _ => ?_
    cases next with
    | none => exact fun _ => ⟨rfl, hstate⟩
    | some g =>
        dsimp only
        split
        · exact fun _ => ⟨rfl, hstate⟩
        · exact setReadField_completes _ _ _ _

theorem readRequest_completes (res : ReadResult) :
    Ensures (readRequest H c res) (Completes c) := by
  rw [readRequest]
  split
  · rename_i hstate
    exact readHeader_completes (by rw [hstate]; rfl) res
  · rename_i hstate
    exact (ensures_true _).bind fun _ _ => readField_completes (by rw [hstate]; rfl) _ _ _
  · rename_i hstate
    exact (ensures_true _).bind fun _ _ => readField_completes (by rw [hstate]; rfl) _ _ _
  · rename_i hstate
    exact readField_completes (by rw [hstate]; rfl) _ _ _
  · exact (ensures_true _).bind fun _ _ h => by cases h

theorem Executes.interpret (h : Executes H c env c₁ q r f) :
    handleClient H c .read env = Server.interpret H (arrived c₁ q r env) q
      { r with received := env.clock 1 } env := by
  obtain ⟨ret, hrun⟩ := h.run
  obtain ⟨hret, hstate⟩ := (readRequest_completes _).of_ok hrun rfl
  have hreceived : c₁.conn.state = .cmdReceived := by
    have := (readRequest_receives _).of_ok hrun
    rw [Receives, if_pos rfl] at this
    exact this.state
  have hopen : c.conn.state ≠ .connClosed := fun hclosed => by
    change awaited c.conn.state = _ at hstate
    rw [hclosed] at hstate
    cases hstate
  have hin : c₁.readIn = .ok (q, r) := by
    rw [Ctx.readIn, h.inReq]
    dsimp only
    rw [Heap.readRequest_eq h.req]
    rfl
  have hexecute : executeCmd H c₁ env = Server.interpret H (arrived c₁ q r env) q
      { r with received := env.clock 1 } env := by
    rw [executeCmd, if_neg (by simp [hreceived]), hin, ok_bind]
    rfl
  rw [← hexecute, handleClient, if_neg hopen]
  dsimp only
  change (tryReadRequest H (touched c env) env >>= _) = _
  rw [tryReadRequest, hrun, ok_bind]
  dsimp only
  rw [if_pos rfl, bind_assoc]
  cases executeCmd H c₁ env with
  | error e => rfl
  | ok c' =>
      rw [ok_bind]
      change (if ret = .readErr then disconnectConn H c' else .ok c') = _
      rw [if_neg (by simp [show ret = .readCompleted from hret])]

theorem Dispatches.step (h : Dispatches H s a env c q r) :
    Server.step H s (.ready a .read env) =
      interpret H c q r env >>= fun c' => .ok (s.put a c') := by
  obtain ⟨c₁, r₁, f, hexec, rfl, rfl⟩ := h.executes
  rw [Server.step, if_pos ⟨h.mem, .inl h.polled⟩, eventHandler,
    if_neg fun hl => by simp [h.client] at hl, hexec.interpret]
  rfl

theorem Dispatches.inReq (h : Dispatches H s a env c q r) :
    c.conn.inReq = some q ∧ c.heap.reqs q = some r := by
  obtain ⟨c₁, r₁, f, hexec, rfl, rfl⟩ := h.executes
  exact ⟨hexec.inReq, Heap.writeRequest_reqs ..⟩

/-- Whether the event completes a request, and the command passes the test `p`. -/
def dispatchTest (H : Host σ) (s : State σ) (a : Addr) (env : Env)
    (p : Ctx σ → Request → Bool) : Bool :=
  a ∈ s.conns && (s.conn a).interest = some .read && !(s.conn a).listening &&
    match readRequest H (touched (s.ctx a) env) env.read with
    | .ok (c, _, true) =>
        match c.conn.inReq with
        | none => false
        | some q =>
            match c.heap.reqs q with
            | none => false
            | some r => p (arrived c q r env) { r with received := env.clock 1 }
    | _ => false

theorem dispatches_of_test {p : Ctx σ → Request → Bool}
    (h : dispatchTest H s a env p = true) :
    ∃ c q r, Dispatches H s a env c q r ∧ p c r = true := by
  simp only [dispatchTest, Bool.and_eq_true, decide_eq_true_eq, Bool.not_eq_true'] at h
  obtain ⟨⟨⟨hmem, hpolled⟩, hclient⟩, h⟩ := h
  split at h
  · rename_i c₁ ret hrun
    split at h
    · cases h
    rename_i q hin
    split at h
    · cases h
    rename_i r hr
    exact ⟨_, q, _, ⟨hmem, hpolled, hclient, c₁, r, _, ⟨⟨ret, hrun⟩, hin, hr, rfl⟩, rfl,
      rfl⟩, h⟩
  · cases h

end Lightcache.Server
