import Lightcache.Server.Failure
import Lightcache.Foundation.Expiry

/-!
# The history of commands

`stepLogged` writes down every command with the time of its execution and the
answer that was queued for it.  While no command meets an entry under another
name that it cannot tell from its own key, the cache is the map that a replay of
this history gives.
-/

namespace Lightcache.Server

open Lightcache Lightcache.Foundation Lightcache.Hashtab Heap

variable {σ : Type} {H : Host σ} {s s' : State σ} {a : Addr} {c c' : Ctx σ} {i : Input}
  {h : Heap σ} {ht : Cache} {set : Settings} {q : Addr} {now : Int} {f : Fields}
  {res : Result} {ev : Event} {env : Env} {Q B W : Multiset Addr} {k : Bytes} {e : Entry}

/-! ## Exchanges -/

/-- A command, the time of its execution, and the answer that was queued. -/
structure Exchange where
  fields : Fields
  time : Int
  code : UInt8
  payload : Bytes
  deriving DecidableEq

/-- The bytes that follow the header of a response. -/
def payloadOf (heap : Heap σ) (out : Response) : Bytes :=
  ((out.sdata.bind heap.bufs).getD []).take out.dataLength

/-- The commands that an input has made the server execute. -/
def exchanged (s s' : State σ) : Input → List Exchange
  | .ready a _ env =>
      ((s'.conn a).trace.executed.drop (s.conn a).trace.executed.length).map fun x =>
        ⟨x.fields, env.clock 1, (s'.conn a).out.retcode,
          payloadOf s'.heap (s'.conn a).out⟩
  | .idle _ => []

/-- `step`, with a history of all exchanges. -/
def stepLogged (H : Host σ) (x : State σ × List Exchange) (i : Input) :
    Except Fault (State σ × List Exchange) := do
  let s ← step H x.1 i
  return (s, x.2 ++ exchanged x.1 s i)

/-- The entry that a SET stands for. -/
def Exchange.entry (x : Exchange) : Entry :=
  ⟨x.fields.data, x.time, (atoullValue x.fields.extra).getD 0⟩

/-- What an exchange says about the contents of the cache. -/
def Exchange.op (x : Exchange) : MapOp Bytes Entry :=
  match x.fields.command with
  | some .cmdGet => .look x.fields.key
  | some .cmdSet =>
      if x.code = Code.success.toByte then .put x.fields.key x.entry else .skip
  | some .cmdDelete => .drop x.fields.key
  | some .cmdFlushAll => .clear
  | _ => .skip

def ops (log : List Exchange) : List (Int × MapOp Bytes Entry) :=
  log.map fun x => (x.time, x.op)

instance (now : Int) : DecidablePred (Expired now) := fun e =>
  inferInstanceAs (Decidable (e.timeout < uint32 (now - e.received)))

/-- The cache after a history, if a GET that finds a dead entry removes it. -/
def replay (dead : Int → Entry → Prop) [∀ t, DecidablePred (dead t)]
    (log : List Exchange) : Bytes → Option Entry :=
  lazily dead (ops log)

theorem replay_concat (dead : Int → Entry → Prop) [∀ t, DecidablePred (dead t)]
    (log : List Exchange) (x : Exchange) :
    replay dead (log ++ [x]) = x.op.lazy (dead x.time) (replay dead log) := by
  simp [replay, ops]

/-! ## The cache as a map -/

/-- The server has the entry `e` under the name `k`. -/
def Contains (s : State σ) (k : Bytes) (e : Entry) : Prop :=
  ∃ v, (k, v) ∈ s.cache.live ∧ Holds s.heap v e

theorem Holds.unique {v : Option Addr} {e' : Entry} (he : Holds h v e)
    (he' : Holds h v e') : e' = e := by
  obtain ⟨q, r, rfl, hc⟩ := he
  obtain ⟨q', r', hq, hc'⟩ := he'
  obtain rfl := Option.some.inj hq
  obtain rfl := Option.some.inj (hc.req.symm.trans hc'.req)
  obtain ⟨d, bytes, hd, hbytes, -, hdata⟩ := hc.filled.data
  obtain ⟨d', bytes', hd', hbytes', -, hdata'⟩ := hc'.filled.data
  obtain rfl := Option.some.inj (hd.symm.trans hd')
  obtain rfl := Option.some.inj (hbytes.symm.trans hbytes')
  obtain ⟨x, xbytes, hx, hxbytes, hvalue⟩ := hc.filled.extra
  obtain ⟨x', xbytes', hx', hxbytes', hvalue'⟩ := hc'.filled.extra
  obtain rfl := Option.some.inj (hx.symm.trans hx')
  obtain rfl := Option.some.inj (hxbytes.symm.trans hxbytes')
  cases e
  cases e'
  simp only [Entry.mk.injEq]
  exact ⟨hdata'.trans hdata.symm, hc'.filled.received.trans hc.filled.received.symm,
    Option.some.inj (hvalue'.symm.trans hvalue)⟩

/-- The entries of the cache, before and after a command with the result `res`. -/
structure Shifts (s s' : State σ) (res : Result) : Prop where
  before : s.cache.live = res.gone + res.kept
  after : s'.cache.live = res.new + res.kept
  kept : ∀ x ∈ res.kept, ∀ e, Holds s'.heap x.2 e ↔ Holds s.heap x.2 e

/-- The request goes on with another field, and the buffer for it is refused. -/
def Starved (H : Host σ) (c : Ctx σ) (env : Env) : Prop :=
  ∃ q r f r₁ f₁ g, c.conn.inReq = some q ∧ c.heap.reqs q = some r ∧
    taken (target c.conn.state) r f env.read = (r₁, f₁, .readCompleted) ∧
    (c.conn.state = .readHeader → ¬ TooLarge (convertHeader r₁)) ∧
    nextField (settled c.conn.state r₁) c.conn.state = some g ∧
    (liMalloc H.alloc c.heap.mem (g.length (settled c.conn.state r₁) + 1)).1 = none

/-- A request is answered when it has been executed, or refused for its lengths. -/
def Heeded (s s' : State σ) : Input → Prop
  | .ready a .read env => a ∈ s.conns → Conn.client (s.conn a) = true →
      awaited (s.conn a).state = some .read → (s'.conn a).state = .sendHeader →
        exchanged s s' (.ready a .read env) ≠ [] ∨
          (s'.conn a).out.retcode = Code.invalidParamSize.toByte
  | _ => True

/-- No buffer for a field of a request is refused. -/
def Supplied (H : Host σ) (s : State σ) : Input → Prop
  | .ready a .read env => ¬ Starved H (s.ctx a) env
  | _ => True

/-- What one input does to the contents of the cache, and to the history. -/
inductive Effect (H : Host σ) (s : State σ) (i : Input) (s' : State σ) : Prop
  | quiet (cache : s'.cache = s.cache)
      (holds : ∀ x ∈ s.cache.live, ∀ e, Holds s'.heap x.2 e ↔ Holds s.heap x.2 e)
      (silent : exchanged s s' i = []) (settings : s'.settings = s.settings)
      (heeded : Supplied H s i → Heeded s s' i)
  | command {a : Addr} {env : Env} {c₁ : Ctx σ} {q : Addr} {r : Request} {f : Fields}
      {h : Heap σ} {res : Result} (input : i = .ready a .read env) (mem : a ∈ s.conns)
      (executes : Executes H (s.ctx a) env c₁ q r f)
      (outcome : Outcome H h s.cache s.settings q (env.clock 1) f res)
      (holds : ∀ x ∈ s.cache.live, ∀ e, Holds h x.2 e ↔ Holds s.heap x.2 e)
      (shifts : Shifts s s' res)
      (new : ∀ x ∈ res.new, Holds s'.heap x.2
        ⟨f.data, env.clock 1, (atoullValue f.extra).getD 0⟩)
      (logged : exchanged s s' i = [⟨f, env.clock 1, res.code.toByte, res.payload⟩])
      (settings : s'.settings = res.settings) (heap : h = (arrived c₁ q r env).heap)

theorem Agree.holds_iff {h' : Heap σ} {L : Contents} (hcached : ∀ x ∈ L, ∃ e, Holds h x.2 e)
    (hagree : Agree (cachedReqs L) (cachedBufs h L) h h') :
    ∀ x ∈ L, ∀ e, Holds h' x.2 e ↔ Holds h x.2 e := by
  rintro ⟨name, v⟩ hx e
  refine ⟨fun he => ?_, fun he => he.agree hx hagree⟩
  obtain ⟨e₀, he₀⟩ := hcached (name, v) hx
  rwa [(he₀.agree hx hagree).unique he]

theorem supplied_of_neverFails (hA : H.alloc.NeverFails) (s : State σ) (i : Input) :
    Supplied H s i := by
  cases i with
  | idle env => trivial
  | ready a ev env =>
      cases ev with
      | write => trivial
      | read =>
          rintro ⟨q, r, f, r₁, f₁, g, -, -, -, -, -, hrefused⟩
          exact liMalloc_ne_none hA (Nat.succ_pos _) (Prod.ext hrefused rfl)

/-- An answer without a command. -/
theorem Reads.unexecuted {mem : σ} {conn conn₁ : Conn} {r r₁ : Request} {f₁ : Fields}
    {rd : ReadResult} {ret : SocketState} (hr : Reads H mem conn r f rd r₁ f₁ conn₁ ret false)
    (hreading : Reading conn r f) (hstate : conn₁.state = .sendHeader) :
    conn₁.out.retcode = Code.invalidParamSize.toByte ∨ ∃ r₁ f₁ g,
      taken (target conn.state) r f rd = (r₁, f₁, .readCompleted) ∧
        (conn.state = .readHeader → ¬ TooLarge (convertHeader r₁)) ∧
        nextField (settled conn.state r₁) conn.state = some g ∧
        (liMalloc H.alloc mem (g.length (settled conn.state r₁) + 1)).1 = none := by
  cases hr with
  | more hret step =>
      have hshape := hreading.shape
      have hsame : (heard conn rd).state = conn.state := by cases rd <;> rfl
      rw [← hsame, hstate] at hshape
      exact hshape.elim
  | refused state step large => exact .inl rfl
  | exhausted step fits next fails refused => exact .inr ⟨_, _, _, step, fits, next, refused⟩
  | @field r₁ f₁ g a bytes step fits next length =>
      cases g <;> cases hstate

/-- An event executes nothing, or one command. -/
theorem ClientStep.quiet_or (h : ClientStep H c ev env Q B W c') :
    (Beside c c' Q B ∧ c'.conn.trace.executed = c.conn.trace.executed ∧
      (ev = .read → awaited c.conn.state = some .read → c'.conn.state = .sendHeader →
        c'.conn.out.retcode = Code.invalidParamSize.toByte ∨ Starved H c env)) ∨
      ∃ c₁ q r f, ev = .read ∧ Executes H c env c₁ q r f ∧
        Serving H c₁.heap c₁.cache c₁.conn q r f Q B W ∧ Beside c c₁ Q B ∧
        c₁.conn.trace.executed = c.conn.trace.executed ∧
        Answered H (arrived c₁ q r env).heap c₁.cache c₁.settings (arrived c₁ q r env).conn
          q { r with received := env.clock 1 } f Q B W c' := by
  have hreads : ∀ {conn₁ r f r₁ f₁ ret received}, Reads H c.heap.mem (touched c env).conn r f
      env.read r₁ f₁ conn₁ ret received → conn₁.trace.executed = c.conn.trace.executed := fun h => by
    rw [h.trace, (heard_trace ..).1]
    rfl
  cases h with
  | closed store beside closed =>
      refine .inl ⟨beside, by rw [closed.trace], fun _ _ hstate => ?_⟩
      rw [closed.state] at hstate
      cases hstate
  | read event held reading reads open_ holding beside =>
      refine .inl ⟨beside, hreads reads, fun _ _ hstate => ?_⟩
      refine (reads.unexecuted (reading.touched env) hstate).imp_right ?_
      exact fun ⟨r₁, f₁, g, hg⟩ => ⟨_, _, _, r₁, f₁, g, held.inReq, held.req, hg⟩
  | @executed _ c₁ q r f r₁ f₁ ret event held reading run reads serving beside answered =>
      exact .inr ⟨c₁, q, r₁, f₁, event, ⟨⟨ret, run⟩, serving.inReq, serving.req,
        serving.delivered.fields⟩, serving, beside, hreads reads, answered⟩
  | blocked event => exact .inl ⟨⟨rfl, rfl, .refl ..⟩, rfl, fun h => by cases event.symm.trans h⟩
  | sent event => exact .inl ⟨⟨rfl, rfl, .refl ..⟩, rfl, fun h => by cases event.symm.trans h⟩
  | headerSent event =>
      exact .inl ⟨⟨rfl, rfl, .refl ..⟩, rfl, fun h => by cases event.symm.trans h⟩
  | responseSent event sending source byte last noData beside next =>
      refine .inl ⟨beside, ?_, fun h => by cases event.symm.trans h⟩
      rcases next with ⟨-, -, closed⟩ | ⟨q, r, -, -, hconn⟩
      · rw [closed.trace]
        rfl
      · rw [hconn]
        rfl

theorem exchanged_nil (h : (s'.conn a).trace.executed = (s.conn a).trace.executed) :
    exchanged s s' (.ready a ev env) = [] := by
  rw [exchanged, h, List.drop_length]
  rfl

/-- The payload of the answer that has been queued. -/
theorem Reply.payloadOf_eq {conn : Conn} {opcode : UInt8} {code : Code} {payload : Bytes}
    (hr : Reply h conn opcode code payload) : payloadOf h conn.out = payload := by
  rw [payloadOf, hr.dataLength]
  by_cases hnil : payload = []
  · simp [hnil]
  · obtain ⟨d, bytes, hd, hbytes, rest, rfl⟩ := hr.payload hnil
    simp [hd, hbytes]

/-- The trace of a connection whose command is being executed. -/
theorem Serving.noted {c₁ : Ctx σ} {r : Request}
    (hs : Serving H c₁.heap c₁.cache c₁.conn q r f Q B W) (env : Env) :
    (Server.arrived c₁ q r env).conn.trace.executed =
      c₁.conn.trace.executed ++ [⟨f, c₁.conn.trace.consumed⟩] := by
  have hfields := (hs.arrived env).delivered.fields
  change _ ++ [Executed.mk ((Server.arrived c₁ q r env).heap.fields _) _] = _
  rw [hfields]

/-- The answer to a command, as it is written down. -/
theorem exchanged_put {n : Nat} {opcode : UInt8} {code : Code} {payload : Bytes}
    (htrace : c'.conn.trace.executed = (s.conn a).trace.executed ++ [⟨f, n⟩])
    (hr : Reply c'.heap c'.conn opcode code payload) :
    exchanged s (s.put a c') (.ready a ev env) =
      [⟨f, env.clock 1, code.toByte, payload⟩] := by
  rw [exchanged, put_conn_self, htrace, List.drop_left, hr.retcode]
  change [Exchange.mk _ _ _ (payloadOf c'.heap c'.conn.out)] = _
  rw [hr.payloadOf_eq]

/-- What a command does to the contents of the cache. -/
theorem Sound.shifts (hs : Sound H s) {c₁ : Ctx σ} {r : Request}
    (hb : Beside (s.ctx a) (arrived c₁ q r env) Q B)
    (hserved : Served H (arrived c₁ q r env).heap c₁.cache (arrived c₁ q r env).conn c' q
      { r with received := env.clock 1 } f res Q B W) :
    (∀ x ∈ s.cache.live, ∀ e, Holds (arrived c₁ q r env).heap x.2 e ↔ Holds s.heap x.2 e) ∧
      Shifts s (s.put a c') res ∧ ∀ x ∈ res.new, Holds c'.heap x.2
        ⟨f.data, env.clock 1, (atoullValue f.extra).getD 0⟩ := by
  have hcache : c₁.cache = s.cache := hb.cache
  have hholds : ∀ x ∈ s.cache.live, ∀ e,
      Holds (arrived c₁ q r env).heap x.2 e ↔ Holds s.heap x.2 e :=
    fun x hx e => hb.holds_iff hx
  have hbefore : s.cache.live = res.gone + res.kept := hcache ▸ hserved.changed.before
  have hmem : ∀ x ∈ res.kept, x ∈ s.cache.live := fun x hx =>
    hbefore ▸ Multiset.mem_add.mpr (.inr hx)
  refine ⟨hholds, ⟨hbefore, hserved.changed.after, fun x hx e => ?_⟩, fun x hx => ?_⟩
  · refine (Agree.holds_iff (fun y hy => ?_) (hserved.changed.agree.mono
      (Multiset.le_add_right ..) (Multiset.le_add_right ..)) x hx e).trans
      (hholds x (hmem x hx) e)
    obtain ⟨e₀, he₀⟩ := hs.store.cached y (hmem y hy)
    exact ⟨e₀, (hholds y (hmem y hy) e₀).mpr he₀⟩
  · obtain ⟨hval, hnew⟩ := hserved.lent x hx
    rw [show x.2 = some q from hval]
    exact hnew

theorem Outlives.heeded (h : Outlives s s') : Heeded s s' i := by
  cases i with
  | idle env => trivial
  | ready a ev env =>
      cases ev with
      | write => trivial
      | read =>
          intro ha hclient hreads hsends
          obtain ⟨-, hsame | hclosed⟩ := h a ha hclient
          · rw [← hsame, hsends] at hreads
            cases hreads
          · rw [hclosed.state] at hsends
            cases hsends

theorem Sound.effect (hs : Sound H s) (hcare : Careful H s i) :
    Post (Server.step H s i) (fun s' => Sound H s' ∧ Effect H s i s') StepFault := by
  refine (hs.happens hcare).imp fun s' ⟨hsound, hhappens⟩ => ⟨hsound, ?_⟩
  cases hhappens with
  | other undisturbed outlives settings trace =>
      refine .quiet undisturbed.cache (Agree.holds_iff hs.store.cached undisturbed.agree) ?_
        settings fun _ => outlives.heeded
      cases i with
      | idle env => rfl
      | ready a ev env => exact exchanged_nil (by rw [trace a ev env rfl])
  | @served a ev env c' mem client awaited hstep listening =>
      rcases hstep.quiet_or with ⟨hb, htrace, hunexecuted⟩ |
        ⟨c₁, q, r, f, rfl, hexec, hserving, hb₁, htrace, hanswered⟩
      · refine .quiet hb.cache (fun x hx e => hb.holds_iff hx)
          (exchanged_nil (by rw [put_conn_self, htrace]; rfl)) hb.settings fun hsupplied => ?_
        cases ev with
        | write => trivial
        | read =>
            intro _ _ hreads hsends
            rw [put_conn_self] at hsends ⊢
            exact .inr ((hunexecuted rfl hreads hsends).resolve_right hsupplied)
      have hlisten : (s.conn a).listening = false := by
        simpa [Conn.client] using (Bool.and_eq_true_iff.mp client).2
      rw [Careful, if_neg (by simp [hlisten])] at hcare
      have hcache : c₁.cache = s.cache := hb₁.cache
      have hgrow : ¬ GrowthRefused H (arrived c₁ q r env).heap c₁.cache q f := by
        rw [hcache]
        exact (hcare client).1 _ _ _ _ hexec
      obtain ⟨-, res, hout, hserved⟩ := hanswered.2 hgrow
      obtain ⟨hholds, hshifts, hnew⟩ :=
        hs.shifts (hb₁.trans (beside_arrived hserving env)) hserved
      rw [hcache, show c₁.settings = s.settings from hb₁.settings] at hout
      have hnoted : c'.conn.trace.executed =
          (s.conn a).trace.executed ++ [⟨f, c₁.conn.trace.consumed⟩] := by
        have hconn : c'.conn.trace = (arrived c₁ q r env).conn.trace := by
          rw [hserved.conn]
        rw [hconn, hserving.noted, htrace]
        rfl
      exact .command rfl mem hexec hout hholds hshifts hnew
        (exchanged_put hnoted hserved.reply) hserved.settings rfl

/-! ## Keys that the table tells apart -/

/-- The command looks up its key in the table. -/
def Looks (f : Fields) : Prop :=
  match f.command with
  | some .cmdGet | some .cmdDelete => True
  | some .cmdSet => f.data ≠ [] ∧ atoullValue f.extra ≠ none
  | _ => False

/-- No entry of another name passes for the key of the command. -/
def Apart (ht : Cache) (f : Fields) : Prop :=
  Looks f → ∀ x ∈ ht.live, Clash ht.realsize x.1 f.key → x.1 = f.key

/-- The fields of the command that an input makes the server execute. -/
def executedBy (H : Host σ) (s : State σ) : Input → Option Fields
  | .ready a .read env =>
      if a ∈ s.conns then
        match readRequest H (touched (s.ctx a) env) env.read with
        | .ok (c, _, true) => (c.conn.inReq.bind c.heap.reqs).map c.heap.fields
        | _ => none
      else none
  | _ => none

theorem Executes.executedBy {r : Request} (h : Executes H (s.ctx a) env c q r f)
    (ha : a ∈ s.conns) : executedBy H s (.ready a .read env) = some f := by
  obtain ⟨ret, hrun⟩ := h.run
  rw [Server.executedBy, if_pos ha, hrun]
  dsimp only
  rw [h.inReq, Option.bind_some, h.req, Option.map_some, h.fields]

/-- The command that an input executes finds only entries of its own key. -/
def Distinct (H : Host σ) (s : State σ) (i : Input) : Prop :=
  ∀ f, executedBy H s i = some f → Apart s.cache f

/-- The entries of the cache are those of the map `m`. -/
def Mirrors (s : State σ) (m : Bytes → Option Entry) : Prop :=
  ∀ k e, Contains s k e ↔ m k = some e

/-- The entry `e` is among `L` under the name `k`. -/
def Lists (h : Heap σ) (L : Contents) (k : Bytes) (e : Entry) : Prop :=
  ∃ v, (k, v) ∈ L ∧ Holds h v e

theorem lists_add {L L' : Contents} : Lists h (L + L') k e ↔ Lists h L k e ∨ Lists h L' k e := by
  simp only [Lists, Multiset.mem_add, or_and_right, exists_or]

theorem lists_singleton {name : Bytes} {v : Option Addr} :
    Lists h {(name, v)} k e ↔ k = name ∧ Holds h v e := by
  simp only [Lists, Multiset.mem_singleton, Prod.mk.injEq]
  exact ⟨fun ⟨v', ⟨hk, hv⟩, he⟩ => ⟨hk, hv ▸ he⟩, fun ⟨hk, he⟩ => ⟨v, ⟨hk, rfl⟩, he⟩⟩

theorem lists_zero : ¬ Lists h 0 k e := by
  rintro ⟨v, hv, -⟩
  exact Multiset.notMem_zero _ hv

theorem lists_congr {h' : Heap σ} {L : Contents}
    (hL : ∀ x ∈ L, ∀ e, Holds h' x.2 e ↔ Holds h x.2 e) :
    Lists h' L k e ↔ Lists h L k e :=
  exists_congr fun _ => and_congr_right fun hv => hL _ hv e

/-- A name is in the table at most once. -/
theorem lists_ne {name : Bytes} {v : Option Addr} {kept : Contents} (hok : TableOk ht)
    (hlive : ht.live = (name, v) ::ₘ kept) (hk : Lists h kept k e) : k ≠ name := by
  rintro rfl
  obtain ⟨v', hv', -⟩ := hk
  exact hok.live_apart hlive (k, v') hv' (.refl _ _)

namespace Shifts

variable {m : Bytes → Option Entry}

theorem old (hc : Shifts s s' res) (hm : Mirrors s m) (k : Bytes) (e : Entry) :
    m k = some e ↔ Lists s.heap res.gone k e ∨ Lists s.heap res.kept k e := by
  rw [← hm k e, ← lists_add, ← hc.before]
  rfl

theorem new (hc : Shifts s s' res) (k : Bytes) (e : Entry) :
    Contains s' k e ↔ Lists s'.heap res.new k e ∨ Lists s.heap res.kept k e := by
  rw [← lists_congr hc.kept, ← lists_add, ← hc.after]
  rfl

theorem same (hc : Shifts s s' res) (hm : Mirrors s m) (hgone : res.gone = 0)
    (hnew : res.new = 0) : Mirrors s' m := fun k e => by
  rw [hc.new k e, hc.old hm k e, hgone, hnew]
  simp [lists_zero]

/-- The entry at `k₀` has been removed. -/
theorem removed {k₀ : Bytes} (hc : Shifts s s' res) (hm : Mirrors s m)
    (hclear : ∀ e, ¬ Lists s.heap res.kept k₀ e)
    (hgone : ∀ k e, Lists s.heap res.gone k e → k = k₀) (hnew : res.new = 0) :
    Mirrors s' (Function.update m k₀ none) := fun k e => by
  rw [hc.new k e, hnew]
  by_cases hk : k = k₀
  · subst hk
    simp [hclear e, lists_zero]
  · rw [Function.update_of_ne hk, hc.old hm k e]
    simp [lists_zero, mt (hgone k e) hk]

/-- The entry at `k₀` has been put, or replaced. -/
theorem put {k₀ : Bytes} {v : Option Addr} {e₀ : Entry} (hc : Shifts s s' res)
    (hm : Mirrors s m) (hclear : ∀ e, ¬ Lists s.heap res.kept k₀ e)
    (hgone : ∀ k e, Lists s.heap res.gone k e → k = k₀) (hnew : res.new = {(k₀, v)})
    (hv : Holds s'.heap v e₀) :
    Mirrors s' (Function.update m k₀ (some e₀)) := fun k e => by
  rw [hc.new k e, hnew, lists_singleton]
  by_cases hk : k = k₀
  · subst hk
    simp only [hclear e, true_and, or_false, Function.update_self, Option.some.injEq]
    exact ⟨fun he => he.unique hv, fun he => he ▸ hv⟩
  · rw [Function.update_of_ne hk, hc.old hm k e]
    simp [hk, mt (hgone k e) hk]

end Shifts

/-- The operation of an exchange does to a map what its outcome does to the cache. -/
theorem Outcome.mirrors {m : Bytes → Option Entry} (hs : Sound H s)
    (hout : Outcome H h s.cache set q now f res)
    (hholds : ∀ x ∈ s.cache.live, ∀ e, Holds h x.2 e ↔ Holds s.heap x.2 e)
    (hc : Shifts s s' res)
    (hnew : ∀ x ∈ res.new, Holds s'.heap x.2
      ⟨f.data, now, (atoullValue f.extra).getD 0⟩)
    (hapart : Apart s.cache f) (hm : Mirrors s m) :
    Mirrors s' ((Exchange.mk f now res.code.toByte res.payload).op.lazy (Expired now) m) := by
  have hmisses : Misses s.cache f.key → m f.key = none := fun hmiss => by
    refine Option.eq_none_iff_forall_ne_some.mpr fun e he => ?_
    obtain ⟨v, hv, -⟩ := (hm f.key e).mpr he
    exact hmiss _ hv (.refl _ _)
  have hupdate : ∀ o : Option Entry, m f.key = o → Function.update m f.key o = m :=
    fun o ho => by rw [← ho, Function.update_eq_self]
  -- the entry that a command finds is the one of its key
  have hfound : ∀ {name v kept}, Looks f → s.cache.live = (name, v) ::ₘ kept →
      Clash s.cache.realsize name f.key → name = f.key ∧
        (∀ e, ¬ Lists s.heap kept f.key e) ∧
        ∀ k e, Lists s.heap {(name, v)} k e → k = f.key := by
    intro name v kept hlooks hlive hclash
    obtain rfl : name = f.key := hapart hlooks (name, v) (by simp [hlive]) hclash
    exact ⟨rfl, fun e he => lists_ne hs.store.ok hlive he rfl,
      fun k e he => (lists_singleton.mp he).1⟩
  have hskip : (Exchange.mk f now res.code.toByte res.payload).op = .skip → res.gone = 0 →
      res.new = 0 → Mirrors s'
        ((Exchange.mk f now res.code.toByte res.payload).op.lazy (Expired now) m) := by
    intro hop hgone hn
    rw [hop]
    exact hc.same hm hgone hn
  cases hout with
  | getMiss cmd miss =>
      simp only [Exchange.op, cmd, MapOp.lazy]
      rw [hupdate _ (by simp [living, hmisses miss])]
      exact hc.same hm rfl rfl
  | @getExpired name v e₀ kept cmd before clash holds expired =>
      obtain ⟨rfl, hclear, hgone⟩ := hfound (by simp [Looks, cmd]) before clash
      have hmem : m f.key = some e₀ := (hm _ _).mp ⟨v, by simp [before],
        (hholds (f.key, v) (by simp [before]) _).mp holds⟩
      simp only [Exchange.op, cmd, MapOp.lazy]
      rw [show living (Expired now) m f.key = none by
        simp [living, hmem, Option.filter_some, expired]]
      exact hc.removed hm hclear hgone rfl
  | @getHit name v e₀ cmd live clash holds fresh =>
      obtain rfl : name = f.key := hapart (by simp [Looks, cmd]) _ live clash
      have hmem : m f.key = some e₀ := (hm _ _).mp ⟨v, live, (hholds _ live _).mp holds⟩
      simp only [Exchange.op, cmd, MapOp.lazy]
      rw [hupdate _ (by simp [living, hmem, Option.filter_some, fresh])]
      exact hc.same hm rfl rfl
  | setInvalid cmd invalid =>
      exact hskip (by simp [Exchange.op, cmd, unchanged, Code.toByte]) rfl rfl
  | setRefused cmd data valid fails =>
      exact hskip (by simp [Exchange.op, cmd, unchanged, Code.toByte]) rfl rfl
  | setNew cmd data valid miss =>
      simp only [Exchange.op, cmd, MapOp.lazy, if_true]
      refine hc.put hm (fun e he => ?_) (fun k e he => absurd he lists_zero) rfl
        (hnew _ (Multiset.mem_singleton_self _))
      obtain ⟨v, hv, -⟩ := he
      exact miss _ hv (.refl _ _)
  | setOver cmd data valid before clash =>
      obtain ⟨rfl, hclear, hgone⟩ := hfound (by simp [Looks, cmd, data, valid]) before clash
      simp only [Exchange.op, cmd, MapOp.lazy, if_true]
      exact hc.put hm hclear hgone rfl (hnew _ (Multiset.mem_singleton_self _))
  | deleteMiss cmd miss =>
      simp only [Exchange.op, cmd, MapOp.lazy, MapOp.record]
      rw [hupdate _ (hmisses miss)]
      exact hc.same hm rfl rfl
  | delete cmd before clash =>
      obtain ⟨rfl, hclear, hgone⟩ := hfound (by simp [Looks, cmd]) before clash
      simp only [Exchange.op, cmd, MapOp.lazy, MapOp.record]
      exact hc.removed hm hclear hgone rfl
  | flushAll cmd =>
      simp only [Exchange.op, cmd, MapOp.lazy, MapOp.record]
      intro k e
      rw [hc.new k e]
      simp [lists_zero]
  | chgInvalid cmd => exact hskip (by simp [Exchange.op, cmd]) rfl rfl
  | chgSetting cmd => exact hskip (by simp [Exchange.op, cmd]) rfl rfl
  | getSettingInvalid cmd => exact hskip (by simp [Exchange.op, cmd]) rfl rfl
  | getSettingRefused cmd => exact hskip (by simp [Exchange.op, cmd]) rfl rfl
  | getSetting cmd => exact hskip (by simp [Exchange.op, cmd]) rfl rfl
  | getStatsRefused cmd => exact hskip (by simp [Exchange.op, cmd]) rfl rfl
  | getStats cmd => exact hskip (by simp [Exchange.op, cmd]) rfl rfl
  | unknown cmd => exact hskip (by simp [Exchange.op, cmd]) rfl rfl

/-- `CURRENT_TIME` when a command is executed. -/
def Input.time : Input → Int
  | .ready _ _ env | .idle env => env.clock 1

/-- The timeout of the entry has elapsed. -/
def Lapsed (now : Int) (e : Entry) : Prop := (e.timeout : Int) < now - e.received

instance (now : Int) : DecidablePred (Lapsed now) := fun e =>
  inferInstanceAs (Decidable ((e.timeout : Int) < now - e.received))

/-- The GET that an input executes finds its entry expired when `dead` says so. -/
def Punctual (H : Host σ) (dead : Int → Entry → Prop) (s : State σ) : Input → Prop
  | .ready a .read env => ∀ f, executedBy H s (.ready a .read env) = some f →
      f.command = some .cmdGet → ∀ e, Contains s f.key e →
        (Expired (env.clock 1) e ↔ dead (env.clock 1) e)
  | _ => True

theorem Exchange.op_look {x : Exchange} (h : x.op = .look k) :
    x.fields.command = some .cmdGet ∧ x.fields.key = k := by
  rw [Exchange.op] at h
  split at h
  · rename_i hget
    exact ⟨hget, MapOp.look.inj h⟩
  · split at h <;> cases h
  all_goals cases h

section Runs

variable {dead : Int → Entry → Prop} [∀ t, DecidablePred (dead t)] {inputs : List Input}
  {log : List Exchange}

/-- One input keeps the cache in step with the history. -/
theorem Effect.mirrors (heff : Effect H s i s') (hs : Sound H s) (hd : Distinct H s i)
    (hp : Punctual H dead s i) (hm : Mirrors s (replay dead log)) :
    Mirrors s' (replay dead (log ++ exchanged s s' i)) := by
  cases heff with
  | quiet cache holds silent =>
      rw [silent, List.append_nil]
      intro k e
      rw [← hm k e]
      change Lists s'.heap s'.cache.live k e ↔ Lists s.heap s.cache.live k e
      rw [cache, lists_congr holds]
  | @command a env c₁ q r f h res input mem executes outcome holds shifts new logged =>
      subst input
      have hf := executes.executedBy mem
      have hop : ∀ y : Exchange, y.fields = f → y.time = env.clock 1 →
          y.op.lazy (dead y.time) (replay dead log) =
            y.op.lazy (Expired y.time) (replay dead log) := by
        rintro y rfl htime
        refine MapOp.lazy_of_iff fun k e hlook he => ?_
        obtain ⟨hget, rfl⟩ := Exchange.op_look hlook
        exact htime ▸ (hp _ hf hget e ((hm _ _).mpr he)).symm
      rw [logged, replay_concat, hop _ rfl rfl]
      exact outcome.mirrors hs holds shifts new (hd _ hf) hm

/-! ## Runs with a history -/

/-- The history does not steer the server. -/
theorem stepLogged_map (x : State σ × List Exchange) (i : Input) :
    (stepLogged H x i).map Prod.fst = Server.step H x.1 i := by
  rw [stepLogged]
  cases Server.step H x.1 i <;> rfl

variable (H dead) in
/-- The server with a history of everything that it has executed. -/
structure Recorded (x : State σ × List Exchange) : Prop where
  sound : Sound H x.1
  mirrors : Mirrors x.1 (replay dead x.2)

variable (H dead) in
/-- The requests are owned, and the commands find the entries of their keys. -/
structure Discerning (s : State σ) (i : Input) : Prop where
  careful : Careful H s i
  distinct : Distinct H s i
  punctual : Punctual H dead s i

theorem Recorded.step {x : State σ × List Exchange} (hr : Recorded H dead x)
    (hi : Discerning H dead x.1 i) :
    Post (stepLogged H x i) (fun x' => Recorded H dead x' ∧ Effect H x.1 i x'.1 ∧
      x'.2 = x.2 ++ exchanged x.1 x'.1 i) StepFault :=
  (hr.sound.effect hi.careful).bind fun _ ⟨hs, heff⟩ =>
    ⟨⟨hs, heff.mirrors hr.sound hi.distinct hi.punctual hr.mirrors⟩, heff, rfl⟩

theorem Effect.exchanged_cases (heff : Effect H s i s') :
    exchanged s s' i = [] ∨ ∃ y, exchanged s s' i = [y] := by
  cases heff with
  | quiet cache holds silent => exact .inl silent
  | command input mem executes outcome holds shifts new logged => exact .inr ⟨_, logged⟩

theorem Effect.heeded (heff : Effect H s i s') (h : Supplied H s i) : Heeded s s' i := by
  cases heff with
  | quiet cache holds silent settings heeded => exact heeded h
  | command input mem executes outcome holds shifts new logged =>
      subst input
      exact fun _ _ _ _ => .inl (by simp [logged])

/-- The history does not stop the server. -/
theorem post_logged {x : State σ × List Exchange} {P : State σ → Prop} {E : Fault → Prop}
    (h : Post (Server.step H x.1 i) P E) : Post (stepLogged H x i) (fun x' => P x'.1) E :=
  h.bind fun _ hs' => hs'

/-- What every exchange owes to its past is shown for one input at a time. -/
theorem Recorded.run {C : State σ × List Exchange → Input → Prop}
    {P : List Exchange → Exchange → Prop}
    (hC : ∀ x i, Recorded H dead x → C x i → Discerning H dead x.1 i)
    (hP : ∀ x i s', Recorded H dead x → C x i → Effect H x.1 i s' →
      ∀ y, exchanged x.1 s' i = [y] → P x.2 y)
    (hr : Recorded H dead (s, log)) (hlog : Justified P log)
    (hmeets : Meets (stepLogged H) C (s, log) inputs) :
    Post (Foundation.run (stepLogged H) (s, log) inputs)
      (fun x => Recorded H dead x ∧ Justified P x.2) StepFault := by
  refine run_post (I := fun x => Recorded H dead x ∧ Justified P x.2)
    (fun x i ⟨hr, hlog⟩ hi => ?_) ⟨hr, hlog⟩ hmeets
  refine (hr.step (hC _ _ hr hi)).imp fun x' ⟨hr', heff, hx'⟩ => ⟨hr', ?_⟩
  rw [hx']
  rcases heff.exchanged_cases with hnil | ⟨y, hy⟩
  · rwa [hnil, List.append_nil]
  · rw [hy]
    exact hlog.concat (hP x i x'.1 hr hi heff y hy)

theorem recorded_start {settings : Settings} {heap : Heap σ} {fd : Nat}
    (hboot : Boot H heap) (hstart : start H settings heap fd env = .ok (some s)) :
    Recorded H dead (s, []) := by
  refine ⟨sound_start hboot hstart, fun k e => ⟨fun ⟨v, hv, _⟩ => ?_,
    fun h : (none : Option Entry) = some e => nomatch h⟩⟩
  obtain ⟨b, mem, mem', cache, -, hfresh, -, rfl⟩ := start_fresh hboot hstart
  dsimp only at hv
  rw [hfresh.live] at hv
  exact absurd hv (Multiset.notMem_zero _)

end Runs

end Lightcache.Server
