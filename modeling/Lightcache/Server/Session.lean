import Lightcache.Server.History
import Lightcache.Server.Index
import Lightcache.Server.Response

/-!
# A client on its own

While no allocation and no read fails, the only client of a server is always in
the middle of a request or of a response, and no event on it goes wrong but for
a command that uses a field it does not carry.
-/

namespace Lightcache.Server

open Lightcache Lightcache.Foundation Lightcache.Hashtab Heap

variable {σ : Type} {H : Host σ} {s s' : State σ} {a : Addr} {c c' : Ctx σ} {conn : Conn}
  {h : Heap σ} {q : Addr} {r : Request} {f : Fields} {t : Option Field} {res : ReadResult}
  {Q B W : Multiset Addr} {ev : Event} {env : Env}

/-! ## The reader and its index -/

theorem taken_progress (t : Option Field) (r : Request) (f : Fields) (res : ReadResult) :
    Progress t r (taken t r f res).1 := by
  have hcounted : ∀ (r₁ : Request) n, Progress t r r₁ → Progress t r (counted t r₁ n).1 := by
    intro r₁ n hp
    rw [counted]
    split
    · exact hp.withIndex 0
    · exact hp.withIndex _
  have hsame : Progress t r r := ⟨rfl, ⟨rfl, rfl⟩, fun _ => rfl, fun _ => rfl⟩
  cases res with
  | byte b => exact hcounted _ _ (stored_progress t r f b)
  | error => exact hcounted _ _ hsame
  | eof => exact hsame
  | wouldBlock => exact hsame

theorem total_taken (t : Option Field) (r : Request) (f : Fields) (res : ReadResult) :
    total (taken t r f res).1 t = total r t := by
  cases t with
  | none => rfl
  | some fd => exact (taken_progress (some fd) r f res).length (by simp) fd

/-- The index stays below the end of the field. -/
theorem taken_index (hindex : r.rbytes < total r t) (hsmall : total r t < 2 ^ 32)
    (hres : res ≠ .error) : (taken t r f res).1.rbytes < total r t := by
  cases res with
  | byte b =>
      have hstored := stored_rbytes t r f b
      have htotal := total_stored (t := t) (r := r) (f := f) b
      change (counted t (stored t r f b).1 1).1.rbytes < _
      rw [counted_one (by rw [hstored, htotal]; exact hindex) (by rwa [htotal])]
      split
      · exact Nat.zero_lt_of_lt hindex
      · dsimp only
        omega
  | error => exact absurd rfl hres
  | eof => exact hindex
  | wouldBlock => exact hindex

theorem Shape.waits {state : ConnState} (h : Shape f state) : awaited state = some .read := by
  cases state with
  | readHeader | readKey | readData | readExtra => rfl
  | _ => exact h.elim

/-! ## Stages -/

/-- The connection is in the middle of a request, or of a response that is in place. -/
inductive Stage (h : Heap σ) (conn : Conn) : Prop
  | reading {q : Addr} {r : Request} {f : Fields} (held : Held h conn q r f)
      (reading : Reading conn r f) (index : r.rbytes < total r (target conn.state))
      (fits : conn.state ≠ .readHeader → ¬ TooLarge r)
  | sending {header payload : Bytes} {n : Nat} (answering : Answering conn header payload n)
      (backed : Backed h conn payload)
  | closed (closed : conn.state = .connClosed)

/-- A bare answer. -/
theorem answering_queued {opcode : UInt8} {code : Code} {conn' : Conn}
    (hconn : conn' = queued conn opcode none 0 code true) :
    Answering conn' conn'.out.header [] 0 := by
  rw [hconn]
  exact ⟨rfl, rfl, rfl, by simp, .inl ⟨rfl, rfl, by decide⟩⟩

theorem Reply.answering {opcode : UInt8} {code : Code} {payload : Bytes}
    (hr : Reply h conn opcode code payload) : Answering conn conn.out.header payload 0 :=
  ⟨hr.interest, rfl, hr.dataLength, hr.small, .inl ⟨hr.state, hr.sbytes, by decide⟩⟩

theorem Held.unique {q' : Addr} {r' : Request} {f' : Fields} (hd : Held h conn q r f)
    (hd' : Held h conn q' r' f') : q' = q ∧ r' = r := by
  obtain rfl := Option.some.inj (hd'.inReq.symm.trans hd.inReq)
  exact ⟨rfl, Option.some.inj (hd'.req.symm.trans hd.req)⟩

theorem Stage.index (hs : Stage h conn) (hd : Held h conn q r f) (hrd : Reading conn r f) :
    r.rbytes < total r (target conn.state) ∧ (conn.state ≠ .readHeader → ¬ TooLarge r) := by
  cases hs with
  | reading held reading index fits =>
      obtain ⟨rfl, rfl⟩ := hd.unique held
      exact ⟨index, fits⟩
  | sending answering backed =>
      have hint := answering.interest
      rw [hrd.interest] at hint
      cases hint
  | closed closed =>
      have hshape := hrd.shape
      rw [closed] at hshape
      exact hshape.elim

theorem Stage.answering (hs : Stage h conn) (hint : conn.interest = some .write)
    (hopen : conn.state ≠ .connClosed) :
    ∃ header payload n, Answering conn header payload n ∧ Backed h conn payload := by
  cases hs with
  | reading held reading index fits =>
      have hread := reading.interest
      rw [hint] at hread
      cases hread
  | sending answering backed => exact ⟨_, _, _, answering, backed⟩
  | closed closed => exact absurd closed hopen

/-- One call of `try_read_request`, if nothing is executed. -/
theorem Reads.stage {mem : σ} {conn₁ : Conn} {r₁ : Request} {f₁ : Fields} {ret : SocketState}
    (h₁ : Reads H mem conn r f res r₁ f₁ conn₁ ret false) (hA : H.alloc.NeverFails)
    (hres : res ≠ .error) (hret : ret ≠ .readErr) (hrd : Reading conn r f)
    (hindex : r.rbytes < total r (target conn.state))
    (hfits : conn.state ≠ .readHeader → ¬ TooLarge r) (hd : Held h conn₁ q r₁ f₁) :
    Stage h conn₁ := by
  have hprogress := taken_progress (target conn.state) r f res
  have hnext := taken_index (f := f) hindex ((total_lt hfits).trans (by decide)) hres
  have hkept : conn.state ≠ .readHeader →
      ¬ TooLarge (taken (target conn.state) r f res).1 := fun hne =>
    mt (hprogress.tooLarge (target_of_waits hrd.shape.waits hne)).mp (hfits hne)
  rcases h₁.elim hrd with ⟨-, herr, -⟩ | ⟨-, -, hrd₁⟩ | ⟨-, -, code, hconn⟩ | ⟨hfalse, -⟩
  · exact absurd herr hret
  · cases h₁ with
    | more hmore step =>
        rw [step] at hnext hkept
        have hstate : (heard conn res).state = conn.state := by cases res <;> rfl
        refine .reading hd hrd₁ ?_ (by rwa [hstate])
        have htotal := total_taken (target conn.state) r f res
        rw [step] at htotal
        rw [hstate, htotal]
        exact hnext
    | refused => exact absurd hrd₁.interest (by simp [queued])
    | exhausted step fits next fails refused => exact absurd hA fails
    | @field r₂ f₂ g p bytes step fits next length =>
        have hzero : r₂.rbytes = 0 := by
          have hindex' := (taken_rbytes (f := f) hrd.rbytes res).2
          rw [step] at hindex'
          simpa using hindex'
        have hlen : g.length (settled conn.state r₂) ≠ 0 := by
          rw [nextField, Option.filter_eq_some_iff] at next
          simpa using next.2
        have hgtarget : target g.state = some g := by cases g <;> rfl
        refine .reading hd hrd₁ ?_ fun _ => ?_
        · change (g.setPtr _ _).rbytes < total (g.setPtr _ _) (target g.state)
          rw [hgtarget, Field.setPtr_rbytes, settled_rbytes, hzero, total, Field.length_setPtr]
          exact Nat.pos_of_ne_zero hlen
        · have hsettled : ¬ TooLarge (settled conn.state r₂) := by
            rw [settled]
            split
            · exact fits ‹_›
            · rw [step] at hkept
              exact hkept ‹_›
          cases g <;> exact hsettled
  · exact .sending (answering_queued hconn) fun hne => absurd rfl hne
  · cases hfalse

/-- One event leads from stage to stage. -/
theorem ClientStep.stage (hstep : ClientStep H c ev env Q B W c') (hA : H.alloc.NeverFails)
    (hread : ev = .read → env.read ≠ .error) (hs : Stage c.heap c.conn) :
    Stage c'.heap c'.conn := by
  have hsends : ev = .write → Sending c.heap c.cache c.conn → Stage c'.heap c'.conn := by
    rintro rfl hsending
    obtain ⟨header, payload, n, ha, hb⟩ := hs.answering hsending.interest fun hclosed => by
      rcases hsending.state with hstate | hstate <;> rw [hclosed] at hstate <;> cases hstate
    have hkept : ∀ {conn'}, Resumes c.conn conn' → Backed c.heap conn' payload :=
      fun hr hne => hr.sdata ▸ hb hne
    cases hstep.sends ha hb with
    | closed free state trace => exact .closed state
    | blocked answering resumes heap cache written =>
        exact .sending answering (heap ▸ hkept resumes)
    | sent answering resumes heap cache byte written =>
        exact .sending answering (heap ▸ hkept resumes)
    | finished last byte trace next =>
        rcases next with hclosed | ⟨hstate, q, r, hd, hrd, hzero⟩
        · exact .closed hclosed
        · refine .reading hd hrd ?_ fun hne => absurd hstate hne
          rw [hzero, hstate]
          exact (by decide : 0 < sizeofReqHeader)
  cases hstep with
  | closed store beside closed => exact .closed closed.state
  | read event held reading reads open_ holding beside =>
      obtain ⟨hindex, hfits⟩ := hs.index held reading
      exact reads.stage hA (hread event) open_ (reading.touched env) hindex hfits holding.held
  | executed event held reading run reads serving beside answered =>
      obtain ⟨-, res, -, hserved⟩ := answered.2 (not_growthRefused hA)
      exact .sending hserved.reply.answering hserved.reply.payload
  | blocked event sending => exact hsends event sending
  | sent event sending => exact hsends event sending
  | headerSent event sending => exact hsends event sending
  | responseSent event sending => exact hsends event sending

/-! ## One event of a client -/

/-- The command that an input executes carries the fields that it uses. -/
def Carries (H : Host σ) (s : State σ) (i : Input) : Prop :=
  ∀ f, executedBy H s i = some f → ¬ ReadsNull s.cache f

/-- `read` fails. -/
def ReadFails : Input → Prop
  | .ready _ .read env => env.read = .error
  | _ => False

instance : DecidablePred ReadFails
  | .ready _ .read env => inferInstanceAs (Decidable (env.read = .error))
  | .ready _ .write _ => isFalse id
  | .idle _ => isFalse id

/-- A client that has not been closed, and the store as it sees it. -/
theorem Sound.opened (hs : Sound H s) (ha : a ∈ s.conns) (hlisten : (s.conn a).listening = false)
    (hopen : (s.conn a).state ≠ .connClosed) :
    Conn.client (s.conn a) = true ∧ Open s.heap s.cache (s.conn a) ∧
      Store H s.heap s.cache (connReqs s.heap (s.conn a) + s.reqsOf (s.others a))
        (connBufs s.heap (s.conn a) + s.bufsOf (s.others a)) ↑s.conns := by
  have hfree : (s.conn a).free = false := by
    by_contra hfree
    exact hopen (hs.idle a ha (by simpa using hfree)).1.state
  have hclient : Conn.client (s.conn a) = true := by simp [Conn.client, hfree, hlisten]
  have hsplit := hs.split ha
  rw [heldReqs_client hfree hlisten, heldBufs_client hfree hlisten] at hsplit
  exact ⟨hclient, hs.clients a ha hclient, hsplit⟩

/-- No event goes wrong. -/
theorem Sound.returns (hs : Sound H s) (hkeyed : s.cache.AllKeyed) (ha : a ∈ s.conns)
    (hlisten : (s.conn a).listening = false) (hstage : Stage s.heap (s.conn a))
    (hcarries : Carries H s (.ready a ev env)) :
    Post (Server.step H s (.ready a ev env)) (fun _ => True) fun _ => False := by
  rw [Server.step]
  split
  case isFalse => trivial
  rename_i hguard
  by_cases hclosed : (s.conn a).state = .connClosed
  · rw [eventHandler, if_neg fun h => h.1 hclosed, handleClient_closed (c := s.ctx a) hclosed]
    trivial
  have hev := hguard.2.resolve_right hclosed
  obtain ⟨hclient, ho, hstore⟩ := hs.opened ha hlisten hclosed
  by_cases hexec : ∃ c₁ ret, readRequest H (touched (s.ctx a) env) env.read = .ok (c₁, ret, true)
  · obtain ⟨c₁, ret, hrun⟩ := hexec
    obtain ⟨-, hread, -⟩ := Open.awaiting (c := s.ctx a) ho hstore hrun
    obtain rfl : ev = .read := Option.some.inj (hev.symm.trans hread)
    obtain ⟨q, r, f, hexecutes, hserving, hb, hconn⟩ := hs.executing ha hclient hrun
    have hcache : c₁.cache = s.cache := hb.cache
    have hstep := hs.step_executes ha hclient hexecutes
    rw [Server.step, if_pos hguard] at hstep
    rw [hstep]
    refine ((executeCmd_post hserving (by rw [hconn]) _).mono (fun _ h => h)
      fun e he => ?_).bind fun _ _ => trivial
    rw [hcache] at he
    rcases he with ⟨-, hnull⟩ | ⟨-, hunkeyed, -⟩
    · exact hcarries f (hexecutes.executedBy ha) hnull
    · exact hunkeyed hkeyed
  · rw [eventHandler, if_neg fun h => by simp [hlisten] at h]
    refine ((handleClient_post (c := s.ctx a) ho hstore hev _).mono (fun _ h => h)
      fun e he => ?_).bind fun _ _ => trivial
    have hsend : Sending s.heap s.cache (s.conn a) → ∃ src b,
        (outgoing (s.ctx a)).1 = .ok src ∧ src[(s.conn a).out.sbytes]? = some b := by
      intro hsending
      obtain ⟨header, payload, n, ha, hb⟩ := hstage.answering hsending.interest hclosed
      exact Answering.sends_ok (c := s.ctx a) ha hb
    cases he with
    | index held reading beyond =>
        exact absurd (hstage.index held reading).1 (Nat.lt_asymm beyond)
    | command run fault => exact hexec ⟨_, _, run⟩
    | send sending source fault =>
        obtain ⟨src, b, hsrc, -⟩ := hsend sending
        exact absurd (hsrc.symm.trans source) (by simp)
    | beyond sending source byte =>
        obtain ⟨src, b, hsrc, hbyte⟩ := hsend sending
        obtain rfl := Except.ok.inj (hsrc.symm.trans source)
        exact absurd (hbyte.symm.trans byte) (by simp)

/-! ## Sessions -/

/-- The server and its only client. -/
structure Session (H : Host σ) (s : State σ) (a : Addr) : Prop where
  solo : Solo H s a
  keyed : s.cache.AllKeyed
  stage : Stage s.heap (s.conn a)

namespace Session

/-- No event goes wrong. -/
theorem returns (hs : Session H s a) (hcarries : Carries H s (.ready a ev env)) :
    Post (Server.step H s (.ready a ev env)) (fun _ => True) fun _ => False :=
  hs.solo.sound.returns hs.keyed hs.solo.mem hs.solo.listening hs.stage hcarries

theorem step (hs : Session H s a) (hA : H.alloc.NeverFails)
    (hread : ev = .read → env.read ≠ .error) (hcarries : Carries H s (.ready a ev env)) :
    Post (Server.step H s (.ready a ev env)) (fun s' => Session H s' a ∧ ∃ c', s' = s.put a c' ∧
      (c' = s.ctx a ∨ ClientStep H (s.ctx a) ev env (s.reqsOf (s.others a))
        (s.bufsOf (s.others a)) ↑s.conns c')) fun _ => False := by
  refine ((hs.solo.step hA ev env).and (hs.returns hcarries)).mono
    (fun s' ⟨⟨hsolo, c', hput, hcases⟩, _⟩ => ?_) fun _ h => h.2
  subst hput
  rcases hcases with rfl | ⟨hclient, -, hstep⟩
  · exact ⟨⟨hsolo, hs.keyed, by rw [put_conn_self]; exact hs.stage⟩, _, rfl, .inl rfl⟩
  · have hflags : (s.conn a).free = false ∧ (s.conn a).listening = false := by
      simpa [Conn.client] using hclient
    have hopen : (s.conn a).state ≠ .connClosed := fun hclosed => by
      have hopen := (hs.solo.sound.clients a hs.solo.mem hclient).phase
      rcases hopen with ⟨q, r, f, -, hrd⟩ | hsending
      · have hshape := hrd.shape
        rw [hclosed] at hshape
        exact hshape
      · rcases hsending.state with hstate | hstate <;> rw [hclosed] at hstate <;> cases hstate
    obtain ⟨gone, new, kept, hm, -⟩ := hstep.moved hflags.1 hflags.2
      fun _ => growsWell_of_neverFails hA
    refine ⟨⟨hsolo, hm.changed.keyed hA hs.keyed, ?_⟩, c', rfl, .inr hstep⟩
    rw [put_conn_self]
    exact hstep.stage (c := s.ctx a) hA hread hs.stage

theorem attend (hs : Session H s a) (hA : H.alloc.NeverFails) {i : Input} (hi : Attends a i)
    (hread : ¬ ReadFails i) (hcarries : Carries H s i) :
    Post (Server.step H s i) (fun s' => Session H s' a) fun _ => False := by
  cases i with
  | ready b ev env =>
      obtain rfl : b = a := hi
      refine (hs.step hA ?_ hcarries).imp fun s' h => h.1
      rintro rfl
      exact hread
  | idle env =>
      rcases hs.solo.sweep env with hsame | ⟨c', hput, hsolo, hcache, hclosed⟩
      · rw [hsame]
        exact hs
      · rw [hput]
        refine ⟨hsolo, ?_, .closed ?_⟩
        · change c'.cache.AllKeyed
          rw [hcache]
          exact hs.keyed
        · rw [put_conn_self]
          exact hclosed.state

theorem run (hs : Session H s a) (hA : H.alloc.NeverFails) {inputs : List Input}
    (hfor : ∀ i ∈ inputs, Attends a i) (hread : ∀ i ∈ inputs, ¬ ReadFails i)
    (hmeets : Meets (Server.step H) (Carries H) s inputs) :
    Post (Foundation.run (Server.step H) s inputs) (fun s' => Session H s' a)
      fun _ => False := by
  induction inputs generalizing s with
  | nil => exact hs
  | cons i inputs ih =>
      obtain ⟨hi, hrest⟩ := List.forall_mem_cons.mp hfor
      obtain ⟨hgood, hreads⟩ := List.forall_mem_cons.mp hread
      rw [run_cons]
      have hstep := hs.attend hA hi hgood hmeets.1
      cases hs' : Server.step H s i with
      | error e =>
          rw [hs'] at hstep
          exact hstep
      | ok s' => exact ih (hstep.of_ok hs') hrest hreads (hmeets.2 s' hs')

end Session

/-! ## The first client -/

/-- A connection that has entered `READ_HEADER` is at rest. -/
theorem rested_of_entered {c₀ : Ctx σ} (hset : setReadHeader H c₀ = .ok c)
    (hfree : c.conn.free = false) : Rested c.heap c.conn ∧ c.cache = c₀.cache ∧
      c.conn.trace = c₀.conn.trace := by
  obtain ⟨⟨c₁, ok⟩, hinit, hset⟩ := ok_of_bind_eq_ok hset
  obtain ⟨c₂, hrequest, hinit⟩ := ok_of_bind_eq_ok hinit
  obtain ⟨c₃, hresponse, hinit⟩ := ok_of_bind_eq_ok hinit
  rcases hm : mallocRequest H c₃.heap with ⟨_ | q, heap⟩ <;> rw [hm] at hinit
  · obtain ⟨rfl, rfl⟩ := Prod.mk.inj (Except.ok.inj hinit)
    have hclosed := (disconnectConn_effect (H := H)).of_ok hset
    rw [hclosed.free] at hfree
    cases hfree
  · have hreq := mallocRequest_reqs hm
    dsimp only at hinit
    rw [readRequest_eq hreq, ok_bind] at hinit
    obtain ⟨rfl, rfl⟩ := Prod.mk.inj (Except.ok.inj hinit)
    obtain rfl := Except.ok.inj hset
    obtain ⟨heap₂, p, rfl⟩ := freeRequest_effect.of_ok hrequest
    obtain ⟨heap₃, rfl⟩ := freeResponse_effect.of_ok hresponse
    refine ⟨⟨rfl, q, _, ⟨rfl, Heap.writeRequest_reqs .., rfl, H.requestOf_header _, rfl,
      fun fd => .inl ?_⟩, reading_fresh c₀.conn rfl q, rfl⟩, rfl, rfl⟩
    cases fd <;> exact ⟨rfl, rfl⟩

theorem Rested.stage (h : Rested s.heap (s.conn a)) : Stage s.heap (s.conn a) := by
  obtain ⟨hstate, q, r, hd, hrd, hzero⟩ := h
  refine .reading hd hrd ?_ fun hne => absurd hstate hne
  rw [hzero, hstate]
  exact (by decide : 0 < sizeofReqHeader)

/-- A server that has just started and accepted its first client. -/
structure Joined (H : Host σ) (s : State σ) (a : Addr) : Prop where
  session : Session H s a
  rested : Rested s.heap (s.conn a)
  empty : s.cache.live = 0
  trace : (s.conn a).trace = ⟨0, [], []⟩

theorem joined {settings : Settings} {heap : Heap σ} {fd : Nat} {env₀ : Env}
    (hboot : Boot H heap) (hstart : start H settings heap fd env₀ = .ok (some s))
    (hclean : CleanBlock H s) {l : Addr}
    (hrun : Server.step H s (.ready l .read env) = .ok s') (ha : a ∈ s'.conns)
    (hclient : Conn.client (s'.conn a) = true) : Joined H s' a := by
  have hsolo := Solo.first hboot hstart hclean hrun ha hclient
  obtain ⟨-, fd', s₁, c', hmade, hmake, hset, rfl⟩ := first_accepted hstart hrun ha hclient
  obtain ⟨b, mem, mem', cache, -, hfresh, -, hs⟩ := start_fresh hboot hstart
  obtain rfl : s.cache = cache := by rw [hs]
  rw [put_conn_self] at hclient
  obtain ⟨hrested, hcache, htrace⟩ := rested_of_entered hset (by
    simpa using (Bool.and_eq_true_iff.mp hclient).1)
  have hcache₁ := (makeConn_same H (s.modifyConn l fun conn =>
    { conn with lastHeard := env.clock 0 }) fd' env).2
  rw [hmake] at hcache₁
  have hrested' : Rested (s₁.put a c').heap ((s₁.put a c').conn a) := by
    rw [put_conn_self]
    exact hrested
  have hsame : (s₁.put a c').cache = s.cache := hcache.trans hcache₁
  refine ⟨⟨hsolo, ?_, hrested'.stage⟩, hrested', ?_, ?_⟩
  · rw [hsame]
    exact hfresh.allKeyed
  · rw [hsame]
    exact hfresh.live
  · rw [put_conn_self, htrace]
    rcases hmade.self with h | h
    · exact congrArg Conn.trace h
    · exact congrArg Conn.trace h

end Lightcache.Server
