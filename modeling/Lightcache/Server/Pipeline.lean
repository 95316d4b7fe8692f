import Lightcache.Server.Framing
import Lightcache.Server.Succession
import Lightcache.Server.Recall
import Lightcache.Lcclient

/-!
# Requests and responses on one connection

A client sends packets one after another without waiting.  However its bytes
come in and go out, the server executes just the packets that have arrived as a
whole, and writes one response for each of them before it reads on.
-/

namespace Lightcache.Server

open Lightcache Lightcache.Foundation Lightcache.Hashtab Heap

variable {σ : Type} {H : Host σ} {s s' : State σ} {a q : Addr} {c c' : Ctx σ}
  {conn conn' conn₁ : Conn} {h h' : Heap σ} {p : Packet} {ps older newer : List Packet}
  {r r₁ : Request} {f f₁ : Fields} {base n : Nat} {log : List Exchange} {y : Exchange}
  {w : Bytes} {res : ReadResult} {Q B W : Multiset Addr} {ev : Event} {env : Env}

/-! ## The stream of packets -/

/-- How many bytes the packets have. -/
def streamLength (ps : List Packet) : Nat := (ps.flatMap Packet.encode).length

/-- The commands of the packets that follow from offset `n` on, and where they end. -/
def entries : Nat → List Packet → List Executed
  | _, [] => []
  | n, p :: ps => ⟨p.toFields, n + p.encode.length⟩ :: entries (n + p.encode.length) ps

/-- What `read` delivers on the connection are the bytes of the packets, in order. -/
def Feeds (ps : List Packet) (a : Addr) (s : State σ) : Input → Prop
  | .ready b .read env => b = a → (s.conn a).interest = some .read → ∀ x, env.read = .byte x →
      (ps.flatMap Packet.encode)[(s.conn a).trace.consumed]? = some x
  | _ => True

theorem encode_pos (p : Packet) : 0 < p.encode.length := by
  rw [Packet.length_encode]
  omega

theorem streamLength_concat (ps : List Packet) (p : Packet) :
    streamLength (ps ++ [p]) = streamLength ps + p.encode.length := by
  simp [streamLength]

theorem entries_append (ps qs : List Packet) : ∀ n, entries n (ps ++ qs) =
    entries n ps ++ entries (n + streamLength ps) qs := by
  induction ps with
  | nil => exact fun n => rfl
  | cons p ps ih =>
      intro n
      have hlength : streamLength (p :: ps) = p.encode.length + streamLength ps := by
        simp [streamLength]
      rw [List.cons_append, entries, entries, ih, hlength, List.cons_append, Nat.add_assoc]

theorem entries_offset {x : Executed} : ∀ {n}, x ∈ entries n ps →
    n < x.offset ∧ x.offset ≤ n + streamLength ps := by
  induction ps with
  | nil => exact fun hx => by cases hx
  | cons p ps ih =>
      intro n hx
      have hpos := encode_pos p
      have hlength : streamLength (p :: ps) = p.encode.length + streamLength ps := by
        simp [streamLength]
      rw [hlength]
      rcases List.mem_cons.mp hx with rfl | hx
      · dsimp only
        omega
      · have hrest := ih hx
        omega

/-- The packets that end up to a position inside the next one. -/
theorem entries_filter (hpast : streamLength older ≤ n)
    (hnext : ∀ p rest, newer = p :: rest → n < streamLength older + p.encode.length) :
    (entries 0 (older ++ newer)).filter (fun x => x.offset ≤ n) = entries 0 older := by
  have hold : (entries 0 older).filter (fun x => x.offset ≤ n) = entries 0 older := by
    refine List.filter_eq_self.mpr fun x hx => decide_eq_true ?_
    have hle := (entries_offset hx).2
    omega
  have hnew : (entries (0 + streamLength older) newer).filter (fun x => x.offset ≤ n) = [] := by
    refine List.filter_eq_nil_iff.mpr fun x hx => ?_
    cases newer with
    | nil => cases hx
    | cons p rest =>
        have hlt := hnext p rest rfl
        rw [decide_eq_true_eq, Nat.not_le]
        rcases List.mem_cons.mp hx with rfl | hx
        · dsimp only
          omega
        · have hoffset := (entries_offset hx).1
          omega
  rw [entries_append, List.filter_append, hold, hnew, List.append_nil]

/-! ## Inside a packet -/

/-- The reader stands before the packets `newer`, or inside the first of them. -/
structure Inside (conn : Conn) (r : Request) (f : Fields) (base : Nat) (newer : List Packet) :
    Prop where
  within : ∀ p rest, newer = p :: rest → Arrived p conn.state r f r.rbytes ∧
    conn.trace.consumed = base + (p.start (target conn.state) + r.rbytes)
  between : newer = [] → conn.trace.consumed = base

/-- The header of a packet is awaited from its first byte on. -/
theorem arrived_first (p : Packet) (hheader : r.header.length = sizeofReqHeader) :
    Arrived p .readHeader r (noFields r) 0 := by
  refine ⟨hheader.trans p.length_header.symm, rfl, fun hne => absurd rfl hne,
    fun fd _ hfd => absurd ?_ hfd⟩
  cases fd <;> rfl

theorem Inside.rested (hstate : conn.state = .readHeader) (hzero : r.rbytes = 0)
    (hheader : r.header.length = sizeofReqHeader) (hconsumed : conn.trace.consumed = base) :
    Inside conn r (noFields r) base newer := by
  refine ⟨fun p rest _ => ?_, fun _ => hconsumed⟩
  rw [hstate, hzero, hconsumed]
  exact ⟨arrived_first p hheader, rfl⟩

/-- The position is inside the packet. -/
theorem Arrived.inside {state : ConnState} (h : Arrived p state r f r.rbytes)
    (hindex : r.rbytes < Server.total r (target state)) :
    p.start (target state) + r.rbytes < p.encode.length := by
  have hpart := h.total ▸ hindex
  have hbyte := p.encode_part hpart
  rw [List.getElem?_eq_getElem hpart] at hbyte
  exact (List.getElem?_eq_some_iff.mp hbyte).1

/-- The next byte of the stream is a byte of the first packet to come. -/
theorem Inside.byte (hin : Inside conn r f (streamLength older) newer)
    (hindex : r.rbytes < total r (target conn.state)) {x : UInt8}
    (hfeed : ((older ++ newer).flatMap Packet.encode)[conn.trace.consumed]? = some x) :
    ∃ p rest, newer = p :: rest ∧ Arrived p conn.state r f r.rbytes ∧
      conn.trace.consumed = streamLength older + (p.start (target conn.state) + r.rbytes) ∧
      p.encode[p.start (target conn.state) + r.rbytes]? = some x := by
  rw [List.flatMap_append] at hfeed
  cases newer with
  | nil =>
      rw [hin.between rfl, List.flatMap_nil, List.append_nil, streamLength,
        List.getElem?_eq_none (Nat.le_refl _)] at hfeed
      cases hfeed
  | cons p rest =>
      obtain ⟨harrived, hconsumed⟩ := hin.within p rest rfl
      refine ⟨p, rest, rfl, harrived, hconsumed, ?_⟩
      rwa [hconsumed, streamLength, List.getElem?_append_right (Nat.le_add_right ..),
        Nat.add_sub_cancel_left, List.flatMap_cons,
        List.getElem?_append_left (harrived.inside hindex)] at hfeed

/-- One call of `try_read_request`, on the stream. -/
theorem Inside.reads {mem : σ} {ret : SocketState} {received : Bool}
    (hin : Inside conn r f (streamLength older) newer) (hA : H.alloc.NeverFails)
    (hrd : Reading conn r f)
    (hindex : r.rbytes < total r (target conn.state))
    (hfeed : ∀ x, res = .byte x →
      ((older ++ newer).flatMap Packet.encode)[conn.trace.consumed]? = some x)
    (hres : res ≠ .error) (hreads : Reads H mem conn r f res r₁ f₁ conn₁ ret received)
    (hopcode : f₁.opcode = r₁.opcode) :
    (received = false ∧ (ret = .readErr ∨
      (Reading conn₁ r₁ f₁ ∧ Inside conn₁ r₁ f₁ (streamLength older) newer))) ∨
    (received = true ∧ ∃ p rest, newer = p :: rest ∧ (Packet.Framed p → f₁ = p.toFields) ∧
      conn₁.trace.consumed = streamLength older + p.readLength) := by
  have htrace := hreads.trace
  cases res with
  | error => exact absurd rfl hres
  | eof =>
      cases hreads with
      | more hret step =>
          obtain ⟨-, -, rfl⟩ : _ ∧ _ ∧ _ := by simpa [taken] using step
          exact .inl ⟨rfl, .inl rfl⟩
      | refused state step => simp [taken] at step
      | exhausted step => simp [taken] at step
      | field step => simp [taken] at step
      | received step => simp [taken] at step
  | wouldBlock =>
      cases hreads with
      | more hret step =>
          obtain ⟨rfl, rfl, -⟩ : _ ∧ _ ∧ _ := by simpa [taken] using step
          exact .inl ⟨rfl, .inr ⟨hrd, hin⟩⟩
      | refused state step => simp [taken] at step
      | exhausted step => simp [taken] at step
      | field step => simp [taken] at step
      | received step => simp [taken] at step
  | byte x =>
      obtain ⟨p, rest, rfl, harrived, hconsumed, hbyte⟩ := hin.byte hindex (hfeed x rfl)
      have htakes := hreads.takes hA hrd harrived hindex hbyte hopcode
      have hnext : conn₁.trace.consumed = conn.trace.consumed + 1 := by
        rw [htrace]
        rfl
      rw [hconsumed] at hnext
      cases htakes with
      | more awaits arrived position =>
          refine .inl ⟨rfl, ?_⟩
          rcases hreads.elim hrd with ⟨-, hret, -⟩ | ⟨-, -, hrd₁⟩ | ⟨-, -, code, hconn⟩ |
            ⟨hfalse, -⟩
          · exact .inl hret
          · refine .inr ⟨hrd₁, fun p' rest' heq => ?_, fun hnil => by cases hnil⟩
            obtain ⟨rfl, rfl⟩ := List.cons.inj heq
            exact ⟨arrived, by rw [hnext, position, Nat.add_assoc]⟩
          · rw [hconn] at awaits
            cases awaits
          · cases hfalse
      | received fields length =>
          exact .inr ⟨rfl, p, rest, rfl, fields, by rw [hnext, length, Nat.add_assoc]⟩

/-! ## Responses -/

/-- The response `w` says what was written down about the exchange `y`. -/
def Responds (y : Exchange) (w : Bytes) : Prop :=
  ∃ resp : Response, resp.opcode = y.fields.opcode ∧ resp.retcode = y.code ∧
    resp.dataLength = y.payload.length ∧ y.payload.length < 2 ^ 32 ∧
    w = resp.header ++ y.payload

/-- What the connection has come to, before the packets `newer` and after the exchanges `log`. -/
inductive Place (h : Heap σ) (conn : Conn) (older newer : List Packet) (log : List Exchange) :
    Prop
  | reading {q : Addr} {r : Request} {f : Fields} {responses : List Bytes}
      (held : Held h conn q r f) (reading : Reading conn r f)
      (inside : Inside conn r f (streamLength older) newer)
      (answers : List.Forall₂ Responds log responses)
      (written : conn.trace.written = responses.flatten)
  | sending {responses : List Bytes} {header payload : Bytes} {n : Nat}
      (answering : Answering conn header payload n) (backed : Backed h conn payload)
      (consumed : conn.trace.consumed = streamLength older)
      (answers : List.Forall₂ Responds log (responses ++ [header ++ payload]))
      (written : conn.trace.written = responses.flatten ++ (header ++ payload).take n)
  | closed {responses : List Bytes} (closed : conn.state = .connClosed)
      (past : streamLength older ≤ conn.trace.consumed)
      (next : ∀ p rest, newer = p :: rest →
        conn.trace.consumed < streamLength older + p.encode.length)
      (answers : List.Forall₂ Responds log responses)
      (written : Written responses conn.trace.written)
      (waits : conn.trace.written ≠ responses.flatten →
        conn.trace.consumed = streamLength older)

/-- The position of a connection that is not closed yet. -/
theorem Place.position (hp : Place h conn older newer log) (hs : Stage h conn) :
    streamLength older ≤ conn.trace.consumed ∧ ∀ p rest, newer = p :: rest →
      conn.trace.consumed < streamLength older + p.encode.length := by
  cases hp with
  | reading held reading inside answers written =>
      obtain ⟨hindex, -⟩ := hs.index held reading
      refine ⟨?_, fun p rest hnewer => ?_⟩
      · cases newer with
        | nil => exact (inside.between rfl).ge
        | cons p rest =>
            rw [(inside.within p rest rfl).2]
            exact Nat.le_add_right ..
      · obtain ⟨harrived, hconsumed⟩ := inside.within p rest hnewer
        rw [hconsumed]
        exact Nat.add_lt_add_left (harrived.inside hindex) _
  | sending answering backed consumed answers written =>
      refine ⟨consumed.ge, fun p rest _ => ?_⟩
      have hpos := encode_pos p
      omega
  | closed closed past next => exact ⟨past, next⟩

/-- What has been written, wherever the connection stands. -/
theorem Place.responses (hp : Place h conn older newer log) :
    ∃ responses, List.Forall₂ Responds log responses ∧ Written responses conn.trace.written ∧
      (conn.trace.written ≠ responses.flatten →
        conn.trace.consumed = streamLength older ∧ awaited conn.state ≠ some .read) := by
  cases hp with
  | @reading q r f responses held reading inside answers written =>
      exact ⟨responses, answers, written ▸ .all responses, fun hne => absurd written hne⟩
  | @sending responses header payload n answering backed consumed answers written =>
      refine ⟨_, answers, ?_, fun _ => ⟨consumed, ?_⟩⟩
      · rw [written]
        exact .part responses (List.take_prefix ..)
      · rcases answering.position with ⟨hstate, -⟩ | ⟨hstate, -⟩ <;> rw [hstate] <;>
          simp [awaited]
  | closed closed past next answers written waits =>
      exact ⟨_, answers, written, fun hne => ⟨waits hne, by rw [closed]; simp [awaited]⟩⟩

theorem Place.close (hp : Place h conn older newer log) (hs : Stage h conn)
    (hstate : conn'.state = .connClosed) (htrace : conn'.trace = conn.trace) :
    Place h' conn' older newer log := by
  obtain ⟨hpast, hnext⟩ := hp.position hs
  obtain ⟨responses, hanswers, hwritten, hwaits⟩ := hp.responses
  rw [← htrace] at hpast hnext hwritten hwaits
  exact .closed hstate hpast hnext hanswers hwritten fun hne => (hwaits hne).1

theorem FieldIs.unique {ptr : Option Addr} {bytes bytes' : Bytes}
    (hb : FieldIs h ptr n bytes) (hb' : FieldIs h ptr n bytes') : bytes' = bytes := by
  by_cases hnil : bytes = []
  · rw [hnil, hb'.eq_none.mp (hb.eq_none.mpr hnil)]
  · obtain ⟨a, hptr, hbuf, -⟩ := hb.present hnil
    obtain ⟨a', hptr', hbuf', -⟩ := hb'.present fun hnil' =>
      hnil (hb.eq_none.mp (hb'.eq_none.mpr hnil'))
    obtain rfl := Option.some.inj (hptr'.symm.trans hptr)
    exact List.append_cancel_right (Option.some.inj (hbuf'.symm.trans hbuf))

theorem Held.fields_unique {f' : Fields} (hd : Held h conn q r f) (hd' : Held h conn q r f') :
    f' = f :=
  fields_eq (hd'.opcode.trans hd.opcode.symm) fun fd => (hd.fields fd).unique (hd'.fields fd)

/-- The request that a connection reads, as it stands in the stream. -/
theorem Place.inside (hp : Place h conn older newer log) (hd : Held h conn q r f)
    (hrd : Reading conn r f) : Inside conn r f (streamLength older) newer ∧
      ∃ responses, List.Forall₂ Responds log responses ∧
        conn.trace.written = responses.flatten := by
  cases hp with
  | reading held reading inside answers written =>
      obtain ⟨rfl, rfl⟩ := hd.unique held
      obtain rfl := hd.fields_unique held
      exact ⟨inside, _, answers, written⟩
  | sending answering =>
      have hint := answering.interest
      rw [hrd.interest] at hint
      cases hint
  | closed closed =>
      have hshape := hrd.shape
      rw [closed] at hshape
      exact hshape.elim

theorem Place.rested {responses : List Bytes} (hrest : Rested h conn)
    (hconsumed : conn.trace.consumed = streamLength older)
    (hanswers : List.Forall₂ Responds log responses)
    (hwritten : conn.trace.written = responses.flatten) : Place h conn older newer log := by
  obtain ⟨hstate, q, r, hheld, hreading, hzero⟩ := hrest
  exact .reading hheld hreading (.rested hstate hzero hheld.header hconsumed) hanswers hwritten

/-- An event on a connection that sends. -/
theorem Place.sends (hp : Place c.heap c.conn older newer log)
    (hstep : ClientStep H c .write env Q B W c') (hs : Stage c.heap c.conn)
    (hsending : Sending c.heap c.cache c.conn) : Place c'.heap c'.conn older newer log := by
  cases hp with
  | reading held reading =>
      have hint := hsending.interest
      rw [reading.interest] at hint
      cases hint
  | closed closed =>
      rcases hsending.state with hstate | hstate <;> rw [closed] at hstate <;> cases hstate
  | @sending responses header payload n answering backed consumed answers written =>
      have hkept : ∀ {conn'}, Resumes c.conn conn' → Backed c.heap conn' payload :=
        fun hr hne => hr.sdata ▸ backed hne
      cases hstep.sends answering backed with
      | closed free state trace =>
          exact (Place.sending answering backed consumed answers written).close hs state trace
      | blocked answering' resumes heap cache same =>
          exact .sending answering' (heap ▸ hkept resumes) (resumes.consumed.trans consumed)
            answers (same.trans written)
      | sent answering' resumes heap cache byte more =>
          refine .sending answering' (heap ▸ hkept resumes) (resumes.consumed.trans consumed)
            answers ?_
          rw [more, written, take_succ_of_getElem? byte, List.append_assoc]
      | @finished b last byte trace next =>
          have hall : c'.conn.trace.written = (responses ++ [header ++ payload]).flatten := by
            rw [trace, written, List.append_assoc, ← take_succ_of_getElem? byte, last,
              List.take_length, List.flatten_append, List.flatten_singleton]
          have hconsumed : c'.conn.trace.consumed = streamLength older := by
            rw [trace]
            exact consumed
          rcases next with hclosed | hrest
          · refine .closed hclosed hconsumed.ge (fun p rest _ => ?_) answers
              (hall ▸ .all _) fun _ => hconsumed
            have hpos := encode_pos p
            omega
          · exact .rested hrest hconsumed answers hall

theorem Place.write (hp : Place c.heap c.conn older newer log)
    (hstep : ClientStep H c .write env Q B W c') (hs : Stage c.heap c.conn) :
    c'.conn.trace.executed = c.conn.trace.executed ∧
      Place c'.heap c'.conn older newer log := by
  refine ⟨?_, ?_⟩
  · rcases hstep.quiet_or with ⟨-, htrace, -⟩ | ⟨c₁, q, r, f, hev, -⟩
    · exact htrace
    · cases hev
  · have hsends := fun h => hp.sends hstep hs h
    cases hstep with
    | closed store beside closed => exact hp.close hs closed.state closed.trace
    | read event => cases event
    | executed event => cases event
    | blocked event sending => exact hsends sending
    | sent event sending => exact hsends sending
    | headerSent event sending => exact hsends sending
    | responseSent event sending => exact hsends sending

/-- The answer to a command that has been executed. -/
theorem Place.answered {r₀ : Request} {responses : List Bytes} {res : Result}
    (hserved : Served H h c.cache conn c' q r₀ p.toFields res Q B W)
    (hconsumed : conn.trace.consumed = streamLength older + p.encode.length)
    (hanswers : List.Forall₂ Responds log responses)
    (hwritten : conn.trace.written = responses.flatten) (now : Int) :
    Place c'.heap c'.conn (older ++ [p]) newer
      (log ++ [⟨p.toFields, now, res.code.toByte, res.payload⟩]) := by
  have hreply := hserved.reply
  have htrace : c'.conn.trace = conn.trace := by rw [hserved.conn]
  refine .sending hreply.answering hreply.payload ?_ (List.rel_append hanswers
    (.cons ⟨c'.conn.out, hreply.opcode, hreply.retcode, hreply.dataLength, hreply.small, rfl⟩
      .nil)) ?_
  · rw [htrace, hconsumed, streamLength_concat]
  · rw [htrace, hwritten, List.take_zero, List.append_nil]

/-- An event on a connection that reads. -/
theorem Place.read (hp : Place c.heap c.conn older newer log)
    (hstep : ClientStep H c .read env Q B W c') (hs : Stage c.heap c.conn)
    (hA : H.alloc.NeverFails)
    (hfeed : c.conn.interest = some .read → ∀ x, env.read = .byte x →
      ((older ++ newer).flatMap Packet.encode)[c.conn.trace.consumed]? = some x)
    (hres : env.read ≠ .error) :
    (c'.conn.trace.executed = c.conn.trace.executed ∧
      Place c'.heap c'.conn older newer log) ∨
    (∃ p rest code payload, newer = p :: rest ∧ Packet.Framed p ∧
      c'.conn.trace.executed = c.conn.trace.executed ++
        [⟨p.toFields, streamLength older + p.encode.length⟩] ∧
      Reply c'.heap c'.conn p.opcode code payload ∧
      Place c'.heap c'.conn (older ++ [p]) rest
        (log ++ [⟨p.toFields, env.clock 1, code.toByte, payload⟩])) ∨
    ∃ p rest f, newer = p :: rest ∧ ¬ Packet.Framed p ∧
      c'.conn.trace.executed = c.conn.trace.executed ++
        [⟨f, streamLength older + p.readLength⟩] := by
  have htouched : ∀ {r f}, Inside c.conn r f (streamLength older) newer →
      Inside (touched c env).conn r f (streamLength older) newer := fun h =>
    ⟨h.within, h.between⟩
  cases hstep with
  | closed store beside closed =>
      exact .inl ⟨by rw [closed.trace], hp.close hs closed.state closed.trace⟩
  | read event held reading reads open_ holding beside =>
      obtain ⟨hinside, responses, hanswers, hwritten⟩ := hp.inside held reading
      have htrace := heard_trace (touched c env).conn env.read
      rw [← reads.trace] at htrace
      rcases (htouched hinside).reads hA (reading.touched env)
        (hs.index held reading).1 (hfeed reading.interest) hres reads holding.opcode with
        ⟨-, hret | ⟨hreading, hinside'⟩⟩ | ⟨hfalse, -⟩
      · exact absurd hret open_
      · exact .inl ⟨htrace.1, .reading holding.held hreading hinside' hanswers
          (htrace.2.trans hwritten)⟩
      · cases hfalse
  | @executed _ c₁ q r f r₁ f₁ ret event held reading run reads serving beside answered =>
      obtain ⟨hinside, responses, hanswers, hwritten⟩ := hp.inside held reading
      have htrace := heard_trace (touched c env).conn env.read
      rw [← reads.trace] at htrace
      rcases (htouched hinside).reads hA (reading.touched env)
        (hs.index held reading).1 (hfeed reading.interest) hres reads
        serving.delivered.opcode with ⟨hfalse, -⟩ | ⟨-, p, rest, rfl, hfields, hconsumed⟩
      · cases hfalse
      · obtain ⟨-, res, -, hserved⟩ := answered.2 (not_growthRefused hA)
        have hexecuted : c'.conn.trace.executed = c.conn.trace.executed ++
            [⟨f₁, streamLength older + p.readLength⟩] := by
          have hsame : c'.conn.trace = (arrived c₁ q r₁ env).conn.trace := by rw [hserved.conn]
          rw [hsame, serving.noted, htrace.1, hconsumed]
          rfl
        by_cases hp : Packet.Framed p
        · obtain rfl := hfields hp
          rw [hp.readLength] at hconsumed hexecuted
          exact .inr (.inl ⟨p, rest, res.code, res.payload, rfl, hp, hexecuted, hserved.reply,
            Place.answered hserved hconsumed hanswers (htrace.2.trans hwritten) _⟩)
        · exact .inr (.inr ⟨p, rest, f₁, rfl, hp, hexecuted⟩)
  | blocked event => cases event
  | sent event => cases event
  | headerSent event => cases event
  | responseSent event => cases event

/-- The connection is somewhere in the stream of the packets `ps`, with the history `log`. -/
def OnTrack (ps : List Packet) (h : Heap σ) (conn : Conn) (log : List Exchange) : Prop :=
  ∃ older newer, ps = older ++ newer ∧ (∀ p ∈ older, Packet.Framed p) ∧
    conn.trace.executed = entries 0 older ∧
    log.map Exchange.fields = older.map Packet.toFields ∧ Place h conn older newer log

/-- A packet that is not framed has been executed before its end. -/
def Derailed (ps : List Packet) (conn : Conn) : Prop :=
  ∃ older p rest, ps = older ++ p :: rest ∧ ¬ Packet.Framed p ∧ ∃ x ∈ conn.trace.executed,
    streamLength older < x.offset ∧ x.offset < streamLength older + p.encode.length

theorem not_derailed (hframed : ∀ p ∈ ps, Packet.Framed p) : ¬ Derailed ps conn := by
  rintro ⟨older, p, rest, rfl, hp, -⟩
  exact hp (hframed p (by simp))

/-- What has been executed stays so. -/
theorem Derailed.extend (hd : Derailed ps conn)
    (hsub : conn.trace.executed ⊆ conn'.trace.executed) : Derailed ps conn' := by
  obtain ⟨older, p, rest, hps, hp, x, hx, hoffset⟩ := hd
  exact ⟨older, p, rest, hps, hp, x, hsub hx, hoffset⟩

/-- What the server has done with the packets `ps`, as the trace of its client shows. -/
structure Pipelined (ps : List Packet) (conn : Conn) (log : List Exchange) : Prop where
  executed : conn.trace.executed =
    (entries 0 ps).filter fun x => x.offset ≤ conn.trace.consumed
  logged : log.map Exchange.fields = conn.trace.executed.map Executed.fields
  /-- No byte of the next packet is read while a response is incomplete. -/
  responses : ∃ responses, List.Forall₂ Responds log responses ∧
    Written responses conn.trace.written ∧ (conn.trace.written ≠ responses.flatten →
      awaited conn.state ≠ some .read ∧
        ∀ x ∈ conn.trace.executed.getLast?, conn.trace.consumed = x.offset)

theorem map_fields_entries (ps : List Packet) : ∀ n,
    (entries n ps).map Executed.fields = ps.map Packet.toFields := by
  induction ps with
  | nil => exact fun n => rfl
  | cons p ps ih => exact fun n => by rw [entries, List.map_cons, List.map_cons, ih]

theorem entries_getLast {x : Executed} (hx : x ∈ (entries 0 older).getLast?) :
    x.offset = streamLength older := by
  rcases List.eq_nil_or_concat older with rfl | ⟨init, p, rfl⟩
  · cases hx
  · rw [List.concat_eq_append, entries_append, Nat.zero_add, entries, entries,
      List.getLast?_concat] at hx
    obtain rfl := Option.some.inj hx
    rw [List.concat_eq_append, streamLength_concat]

namespace OnTrack

theorem pipelined (ht : OnTrack ps h conn log) (hs : Stage h conn) : Pipelined ps conn log := by
  obtain ⟨older, newer, rfl, -, hexecuted, hlogged, hplace⟩ := ht
  obtain ⟨hpast, hnext⟩ := hplace.position hs
  obtain ⟨responses, hanswers, hwritten, hwaits⟩ := hplace.responses
  refine ⟨?_, ?_, responses, hanswers, hwritten, fun hne => ?_⟩
  · rw [hexecuted, entries_filter hpast hnext]
  · rw [hlogged, hexecuted, map_fields_entries]
  · obtain ⟨hconsumed, hstate⟩ := hwaits hne
    refine ⟨hstate, fun x hx => ?_⟩
    rw [hexecuted] at hx
    rw [hconsumed, entries_getLast hx]

theorem close (ht : OnTrack ps h conn log) (hs : Stage h conn)
    (hstate : conn'.state = .connClosed) (htrace : conn'.trace = conn.trace) :
    OnTrack ps h' conn' log := by
  obtain ⟨older, newer, hps, hframed, hexecuted, hlogged, hplace⟩ := ht
  exact ⟨older, newer, hps, hframed, by rw [htrace, hexecuted], hlogged,
    hplace.close hs hstate htrace⟩

/-- An event on the connection. -/
theorem serve (ht : OnTrack ps s.heap (s.conn a) log) (hs : Stage s.heap (s.conn a))
    (hstep : ClientStep H (s.ctx a) ev env Q B W c') (hA : H.alloc.NeverFails)
    (hread : ¬ ReadFails (.ready a ev env)) (hfeeds : Feeds ps a s (.ready a ev env)) :
    OnTrack ps c'.heap c'.conn (log ++ exchanged s (s.put a c') (.ready a ev env)) ∨
      Derailed ps c'.conn := by
  obtain ⟨older, newer, rfl, hframed, hexecuted, hlogged, hplace⟩ := ht
  have hkeep : c'.conn.trace.executed = (s.conn a).trace.executed →
      Place c'.heap c'.conn older newer log →
      OnTrack (older ++ newer) c'.heap c'.conn
        (log ++ exchanged s (s.put a c') (.ready a ev env)) := fun htrace hplace' => by
    rw [exchanged_nil (by rw [put_conn_self, htrace]), List.append_nil]
    exact ⟨older, newer, rfl, hframed, htrace.trans hexecuted, hlogged, hplace'⟩
  cases ev with
  | write =>
      obtain ⟨htrace, hplace'⟩ := Place.write (c := s.ctx a) hplace hstep hs
      exact .inl (hkeep htrace hplace')
  | read =>
      rcases Place.read (c := s.ctx a) hplace hstep hs hA (hfeeds rfl) hread with
        ⟨htrace, hplace'⟩ | ⟨p, rest, code, payload, rfl, hp, htrace, hreply, hplace'⟩ |
        ⟨p, rest, f, rfl, hp, htrace⟩
      · exact .inl (hkeep htrace hplace')
      · rw [exchanged_put htrace hreply]
        refine .inl ⟨older ++ [p], rest, by simp, fun p' hp' => ?_, ?_, ?_, hplace'⟩
        · rcases List.mem_append.mp hp' with hp' | hp'
          · exact hframed p' hp'
          · obtain rfl := List.mem_singleton.mp hp'
            exact hp
        · rw [htrace, entries_append, Nat.zero_add]
          exact congrArg (· ++ _) hexecuted
        · rw [List.map_append, List.map_append, hlogged]
          rfl
      · obtain ⟨hpos, hlt⟩ := Packet.readLength_lt hp
        exact .inr ⟨older, p, rest, rfl, hp, _, by rw [htrace]; exact List.mem_concat_self ..,
          Nat.lt_add_of_pos_right hpos, Nat.add_lt_add_left hlt _⟩

end OnTrack

/-- A client that has just connected stands before its first packet. -/
theorem Entered.onTrack (he : Entered s a) (ps : List Packet) :
    OnTrack ps s.heap (s.conn a) [] := by
  refine ⟨[], ps, rfl, by simp, by rw [he.trace]; rfl, rfl, .rested he.rested ?_ .nil ?_⟩
  · rw [he.trace]
    rfl
  · rw [he.trace]
    rfl

/-! ## The client of the pipeline -/

/-- The server, its client in the stream of the packets `ps`, and the history. -/
structure Pipeline (H : Host σ) (ps : List Packet) (a : Addr) (z : State σ × List Exchange) :
    Prop where
  session : Session H z.1 a
  track : OnTrack ps z.1.heap (z.1.conn a) z.2

theorem Pipeline.pipelined {z : State σ × List Exchange} (hz : Pipeline H ps a z) :
    Pipelined ps (z.1.conn a) z.2 := hz.track.pipelined hz.session.stage

theorem Pipeline.step {z : State σ × List Exchange} {i : Input} (hz : Pipeline H ps a z)
    (hA : H.alloc.NeverFails) (hframed : ∀ p ∈ ps, Packet.Framed p) (hi : Attends a i)
    (hread : ¬ ReadFails i) (hfeeds : Feeds ps a z.1 i) (hcarries : Carries H z.1 i) :
    Post (stepLogged H z i) (Pipeline H ps a) fun _ => False := by
  obtain ⟨s, log⟩ := z
  obtain ⟨hs, htrack⟩ := hz
  dsimp only at hs htrack hfeeds hcarries
  have hnone : log ++ [] = log := List.append_nil log
  cases i with
  | idle env =>
      have hattend := hs.attend hA (i := .idle env) trivial hread hcarries
      rw [stepLogged]
      rcases hs.solo.sweep env with hsame | ⟨c', hput, -, -, hclosed⟩
      · rw [hsame] at hattend ⊢
        exact ⟨hattend, hnone.symm ▸ htrack⟩
      · rw [hput] at hattend ⊢
        refine ⟨hattend, ?_⟩
        dsimp only
        rw [put_conn_self]
        exact hnone.symm ▸ htrack.close hs.stage hclosed.state hclosed.trace
  | ready b ev env =>
      obtain rfl : b = a := hi
      refine (hs.step hA (by rintro rfl; exact hread) hcarries).bind fun s' h => ?_
      obtain ⟨hs', c', rfl, hcases⟩ := h
      refine ⟨hs', ?_⟩
      dsimp only
      rcases hcases with rfl | hstep
      · rw [put_ctx, exchanged_nil rfl]
        exact hnone.symm ▸ htrack
      · rw [put_conn_self]
        exact (htrack.serve hs.stage hstep hA hread hfeeds).resolve_right (not_derailed hframed)

/-! ## Every run of the client -/

/-- A framed packet that carries the fields that its command uses. -/
structure WellFormed (p : Packet) : Prop where
  framed : Packet.Framed p
  carries : ∀ ht, ¬ ReadsNull ht p.toFields

/-- A command that is executed is that of the first packet to come. -/
theorem Place.executes {c₁ : Ctx σ} {ret : SocketState}
    (hp : Place c.heap c.conn older newer log) (ho : Open c.heap c.cache c.conn)
    (hstore : Store H c.heap c.cache (connReqs c.heap c.conn + Q)
      (connBufs c.heap c.conn + B) W) (hs : Stage c.heap c.conn) (hA : H.alloc.NeverFails)
    (hframed : ∀ p ∈ newer, Packet.Framed p)
    (hfeed : c.conn.interest = some .read → ∀ x, env.read = .byte x →
      ((older ++ newer).flatMap Packet.encode)[c.conn.trace.consumed]? = some x)
    (hres : env.read ≠ .error)
    (hrun : readRequest H (Server.touched c env) env.read = .ok (c₁, ret, true)) :
    ∃ p ∈ newer, ∃ q r, Executes H c env c₁ q r p.toFields := by
  rcases ho.phase with ⟨q, r, f, held, reading⟩ | hsend
  · obtain ⟨hinside, -⟩ := hp.inside held reading
    have hread := ((held.holding (held.store reading hstore)).touched env).readRequest
      (reading.touched env) env.read
    rw [hrun] at hread
    obtain ⟨r₁, f₁, hreads, hholding, -⟩ := hread
    rcases (show Inside (Server.touched c env).conn r f (streamLength older) newer from
        ⟨hinside.within, hinside.between⟩).reads hA (reading.touched env)
        (hs.index held reading).1 (hfeed reading.interest) hres hreads hholding.opcode with
      ⟨hfalse, -⟩ | ⟨-, p, rest, rfl, hfields, -⟩
    · cases hfalse
    · rcases hreads.elim (reading.touched env) with
        ⟨hfalse, -⟩ | ⟨hfalse, -⟩ | ⟨hfalse, -⟩ | ⟨-, -, -, hkey, hdata, hextra, hsmall⟩
      · cases hfalse
      · cases hfalse
      · cases hfalse
      · obtain rfl := hfields (hframed p (by simp))
        have hserving := hholding.serving hkey hdata hextra hsmall rfl
        exact ⟨p, List.mem_cons_self .., q, r₁, ⟨ret, hrun⟩, hserving.inReq, hserving.req,
          hserving.delivered.fields⟩
  · exact absurd hrun (readRequest_sending (c := Server.touched c env) hsend.state _)

theorem executedBy_eq_some {i : Input} (h : executedBy H s i = some f) :
    ∃ b env c₁ ret, i = .ready b .read env ∧ b ∈ s.conns ∧
      readRequest H (touched (s.ctx b) env) env.read = .ok (c₁, ret, true) := by
  cases i with
  | idle env => cases h
  | ready b ev env =>
      cases ev with
      | write => cases h
      | read =>
          rw [executedBy] at h
          split at h
          · rename_i hmem
            split at h
            · exact ⟨b, env, _, _, rfl, hmem, ‹_›⟩
            · cases h
          · cases h

/-- A command that an input executes is one of the packets. -/
theorem Pipeline.executes {z : State σ × List Exchange} {i : Input} (hz : Pipeline H ps a z)
    (hA : H.alloc.NeverFails) (hframed : ∀ p ∈ ps, Packet.Framed p) (hi : Attends a i)
    (hread : ¬ ReadFails i) (hfeeds : Feeds ps a z.1 i) (hf : executedBy H z.1 i = some f) :
    ∃ p ∈ ps, f = p.toFields := by
  obtain ⟨b, env, c₁, ret, rfl, hmem, hrun⟩ := executedBy_eq_some hf
  obtain rfl : b = a := hi
  obtain ⟨older, newer, rfl, -, -, -, hplace⟩ := hz.track
  have hopen : (z.1.conn b).state ≠ .connClosed := fun hclosed => by
    rw [readRequest, show (touched (z.1.ctx b) env).conn.state = .connClosed from hclosed] at hrun
    obtain ⟨c₂, -, hrest⟩ := ok_of_bind_eq_ok hrun
    cases hrest
  obtain ⟨-, ho, hstore⟩ :=
    hz.session.solo.sound.opened hmem hz.session.solo.listening hopen
  obtain ⟨p, hp, q, r, hexec⟩ := Place.executes (c := z.1.ctx b) hplace ho hstore
    hz.session.stage hA (fun p hp => hframed p (List.mem_append.mpr (.inr hp)))
    (hfeeds rfl) hread hrun
  rw [hexec.executedBy hmem] at hf
  exact ⟨p, List.mem_append.mpr (.inr hp), (Option.some.inj hf).symm⟩

/-- The client is asked for nothing that its packets do not carry. -/
theorem Pipeline.carries {z : State σ × List Exchange} {i : Input} (hz : Pipeline H ps a z)
    (hA : H.alloc.NeverFails) (hps : ∀ p ∈ ps, WellFormed p) (hi : Attends a i)
    (hread : ¬ ReadFails i) (hfeeds : Feeds ps a z.1 i) : Carries H z.1 i := by
  intro f hf
  obtain ⟨p, hp, rfl⟩ := hz.executes hA (fun p hp => (hps p hp).framed) hi hread hfeeds hf
  exact (hps p hp).carries _

theorem Pipeline.run {z : State σ × List Exchange} {inputs : List Input}
    (hz : Pipeline H ps a z) (hA : H.alloc.NeverFails) (hps : ∀ p ∈ ps, WellFormed p)
    (hfor : ∀ i ∈ inputs, Attends a i) (hread : ∀ i ∈ inputs, ¬ ReadFails i)
    (hmeets : Meets (Server.step H) (Feeds ps a) z.1 inputs) :
    Post (Foundation.run (stepLogged H) z inputs) (Pipeline H ps a) fun _ => False :=
  run_post (C := fun z i => Feeds ps a z.1 i ∧ Attends a i ∧ ¬ ReadFails i)
    (fun _ _ hz hi => hz.step hA (fun p hp => (hps p hp).framed) hi.2.1 hi.2.2 hi.1
      (hz.carries hA hps hi.2.1 hi.2.2 hi.1)) hz
    ((meets_map stepLogged_map hmeets).and (meets_of_forall fun _ i hi => ⟨hfor i hi, hread i hi⟩))

theorem Connects.pipeline (hconn : Connects H s a s') (hreached : Reached H s)
    (hA : H.alloc.NeverFails) (ps : List Packet) : Pipeline H ps a (s', []) := by
  obtain ⟨hsession, hentered⟩ := hconn.enters (hreached.serial hA) hA
  exact ⟨hsession, hentered.onTrack ps⟩

/-- The commands that have been executed are the packets that have arrived as a whole. -/
def Framed (ps : List Packet) (conn : Conn) : Prop :=
  conn.trace.executed = (entries 0 ps).filter fun x => x.offset ≤ conn.trace.consumed

/--
Whoever came before, and however its bytes come in, a client makes the server
execute just the packets that have arrived as a whole.
-/
theorem requests_framed {inputs : List Input} (hreached : Reached H s) (hA : H.alloc.NeverFails)
    (hconn : Connects H s a s') (hps : ∀ p ∈ ps, WellFormed p)
    (hfor : ∀ i ∈ inputs, Attends a i) (hread : ∀ i ∈ inputs, ¬ ReadFails i)
    (hmeets : Meets (Server.step H) (Feeds ps a) s' inputs) :
    Post (Foundation.run (Server.step H) s' inputs) (fun t => Framed ps (t.conn a))
      fun _ => False :=
  (post_run_map stepLogged_map).mp (((hconn.pipeline hreached hA ps).run hA hps hfor hread hmeets).imp
    fun _ hz => hz.pipelined.executed)

/-- The first client of a server that has started. -/
theorem Connects.first {settings : Settings} {heap : Heap σ} {fd : Nat} {env₀ : Env} {l : Addr}
    (hstart : start H settings heap fd env₀ = .ok (some s))
    (hstep : Server.step H s (.ready l .read env) = .ok s') (ha : hasClient a s' = true) :
    Connects H s a s' := by
  rw [hasClient, Bool.and_eq_true, List.contains_iff_mem] at ha
  obtain ⟨b, hconns, hlisten, -⟩ := start_conns hstart
  refine ⟨fun b' hb' => ?_, ⟨l, env, hstep⟩, ha.1, ha.2⟩
  obtain rfl := List.mem_singleton.mp (hconns ▸ hb')
  simp [Conn.client, hlisten]

/-- Whether a byte that comes in is the next one of the packets. -/
def feedsTest (ps : List Packet) (a : Addr) (s : State σ) : Input → Bool
  | .ready b .read env => b != a ||
      match env.read with
      | .byte x => (ps.flatMap Packet.encode)[(s.conn a).trace.consumed]? == some x
      | _ => true
  | _ => true

theorem feeds_of_test {i : Input} (h : feedsTest ps a s i = true) : Feeds ps a s i := by
  cases i with
  | idle env => trivial
  | ready b ev env =>
      cases ev with
      | write => trivial
      | read =>
          intro hba _ x hx
          rw [feedsTest, hx, Bool.or_eq_true] at h
          exact beq_iff_eq.mp (h.resolve_left (by simp [hba]))

theorem Complete.wellFormed (h : Complete p.toFields) (hp : Packet.Framed p) : WellFormed p :=
  ⟨hp, fun _ => h.carries⟩

theorem wellFormed_setPacket : WellFormed setPacket :=
  Complete.wellFormed ⟨by decide, by decide⟩ ⟨by decide, by decide⟩

theorem wellFormed_getPacket : WellFormed getPacket :=
  Complete.wellFormed ⟨by decide, by decide⟩ ⟨by decide, by decide⟩

/-- A SET and a GET, and the bytes of the response to the SET in between. -/
def setThenGet : List Input :=
  arrive 4 setPacket.encode ++ (Server.take 4 8 ++ arrive 4 getPacket.encode)

theorem concerns_setThenGet : ∀ i ∈ setThenGet, Concerns 4 i := by
  intro i hi
  rcases List.mem_append.mp hi with hi | hi
  · exact concerns_arrive 4 _ i hi
  · rcases List.mem_append.mp hi with hi | hi
    · exact concerns_take 4 _ i hi
    · exact concerns_arrive 4 _ i hi

theorem fed_setThenGet :
    ∃ s s', start (Host.lp64 Allocator.unlimited) ⟨0, 2⟩ (emptyHeap ∅) 3
        (hearing .eof) = .ok (some s) ∧
      Reached (Host.lp64 Allocator.unlimited) s ∧
      Connects (Host.lp64 Allocator.unlimited) s 4 s' ∧
      Meets (Server.step (Host.lp64 Allocator.unlimited)) (Feeds [setPacket, getPacket] 4) s'
        setThenGet := by
  obtain ⟨s, hstart, hjoin⟩ : ∃ s, start (Host.lp64 Allocator.unlimited) ⟨0, 2⟩
      (emptyHeap ∅) 3 (hearing .eof) = .ok (some s) ∧
      returns (Server.step (Host.lp64 Allocator.unlimited) s (knock 1)) (fun s' =>
        hasClient 4 s' && meetsTest (Server.step (Host.lp64 Allocator.unlimited))
          (feedsTest [setPacket, getPacket] 4) s' setThenGet) = true :=
    ⟨_, rfl, by decide +kernel⟩
  obtain ⟨s', hs', htest⟩ := exists_of_returns hjoin
  rw [Bool.and_eq_true] at htest
  exact ⟨s, s', hstart, .start (boot_emptyHeap rfl) hstart (cleanBlock_of_clears rfl),
    Connects.first hstart hs' htest.1, meets_of_test htest.2 fun _ _ _ => feeds_of_test⟩

theorem wellFormed_setGet : ∀ p ∈ [setPacket, getPacket], WellFormed p := by
  rintro p (_ | ⟨_, _ | ⟨_, ⟨⟩⟩⟩)
  · exact wellFormed_setPacket
  · exact wellFormed_getPacket

theorem attends_setThenGet : ∀ i ∈ setThenGet, Attends 4 i := fun i hi =>
  attends_of_concerns (concerns_setThenGet i hi)

/-- The SET and the GET of the first client are both executed. -/
theorem requests_framed_set_get :
    ∃ s s', start (Host.lp64 Allocator.unlimited) ⟨0, 2⟩ (emptyHeap ∅) 3
        (hearing .eof) = .ok (some s) ∧
      Connects (Host.lp64 Allocator.unlimited) s 4 s' ∧
      Post (Foundation.run (Server.step (Host.lp64 Allocator.unlimited)) s' setThenGet)
        (fun t => Framed [setPacket, getPacket] (t.conn 4)) fun _ => False := by
  obtain ⟨s, s', hstart, hreached, hconn, hmeets⟩ := fed_setThenGet
  exact ⟨s, s', hstart, hconn, requests_framed hreached Allocator.neverFails_unlimited hconn
    wellFormed_setGet attends_setThenGet (by decide +kernel) hmeets⟩

/-! ## What the client receives -/

/-- What the client makes of the answer. -/
def Exchange.response (y : Exchange) : Lcclient.Response :=
  ⟨y.fields.opcode, y.code, Lcclient.dataOf y.payload⟩

/-- What a client has received by repeated calls of `recv_packet`. -/
structure Received (conn : Conn) (log : List Exchange) : Prop where
  logged : log.map Exchange.fields = conn.trace.executed.map Executed.fields
  /-- The bytes are the responses one after another, of which the last may be incomplete. -/
  bytes : ∃ responses, List.Forall₂ Responds log responses ∧
    Written responses conn.trace.written ∧
    (awaited conn.state = some .read → conn.trace.written = responses.flatten)
  whole : awaited conn.state = some .read →
    Lcclient.recvPackets conn.trace.written = log.map Exchange.response
  /-- While the last response is incomplete, nothing is read. -/
  rest : Lcclient.recvPackets conn.trace.written ≠ log.map Exchange.response →
    Lcclient.recvPackets conn.trace.written = (log.map Exchange.response).dropLast ∧
      ∀ x ∈ conn.trace.executed.getLast?, conn.trace.consumed = x.offset

theorem responds_frames {responses : List Bytes} (h : List.Forall₂ Responds log responses) :
    List.Forall₂ (Frames Lcclient.recvPacket) (log.map Exchange.response) responses := by
  rw [List.forall₂_map_left_iff]
  refine h.imp fun y w hy => ?_
  obtain ⟨resp, hopcode, hretcode, hlength, hsmall, rfl⟩ := hy
  rw [Exchange.response, ← hopcode, ← hretcode]
  exact Lcclient.frames_response resp hlength hsmall

theorem Pipelined.received (h : Pipelined ps conn log) : Received conn log := by
  obtain ⟨responses, hanswers, hwritten, hwaits⟩ := h.responses
  have hframes := responds_frames hanswers
  have hall : conn.trace.written = responses.flatten →
      Lcclient.recvPackets conn.trace.written = log.map Exchange.response := fun heq => by
    rw [heq]
    exact drain_flatten hframes rfl
  have hflat : awaited conn.state = some .read → conn.trace.written = responses.flatten :=
    fun hstate => by
      by_contra hpart
      exact (hwaits hpart).1 hstate
  refine ⟨h.logged, ⟨responses, hanswers, hwritten, hflat⟩, fun hstate => hall (hflat hstate),
    fun hne => ?_⟩
  · have hpart := mt hall hne
    exact ⟨hwritten.drain hframes rfl hpart, (hwaits hpart).2⟩

/--
Whoever came before, a client that sends its packets without waiting receives one
response for each of them, in order.
-/
theorem responses_received {inputs : List Input} (hreached : Reached H s)
    (hA : H.alloc.NeverFails) (hconn : Connects H s a s') (hps : ∀ p ∈ ps, WellFormed p)
    (hfor : ∀ i ∈ inputs, Attends a i) (hread : ∀ i ∈ inputs, ¬ ReadFails i)
    (hmeets : Meets (Server.step H) (Feeds ps a) s' inputs) :
    Post (Foundation.run (stepLogged H) (s', []) inputs) (fun z => Received (z.1.conn a) z.2)
      fun _ => False :=
  ((hconn.pipeline hreached hA ps).run hA hps hfor hread hmeets).imp
    fun _ hz => hz.pipelined.received

/-- The first client receives the response to its SET. -/
theorem responses_received_set_get :
    ∃ s s', start (Host.lp64 Allocator.unlimited) ⟨0, 2⟩ (emptyHeap ∅) 3
        (hearing .eof) = .ok (some s) ∧
      Connects (Host.lp64 Allocator.unlimited) s 4 s' ∧
      Post (Foundation.run (stepLogged (Host.lp64 Allocator.unlimited)) (s', []) setThenGet)
        (fun z => Received (z.1.conn 4) z.2) fun _ => False := by
  obtain ⟨s, s', hstart, hreached, hconn, hmeets⟩ := fed_setThenGet
  exact ⟨s, s', hstart, hconn, responses_received hreached Allocator.neverFails_unlimited hconn
    wellFormed_setGet attends_setThenGet (by decide +kernel) hmeets⟩

end Lightcache.Server
