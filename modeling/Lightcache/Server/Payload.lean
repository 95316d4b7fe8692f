import Lightcache.Server.Failure
import Lightcache.Server.Ownership
import Lightcache.Server.Response

/-!
# The payload of a GET

A GET that hits lends the connection the buffer of the cached request.  What is
written is the value that was found as long as no command of another connection
removes the entry before the response has been sent.
-/

namespace Lightcache.Server

open Lightcache Lightcache.Foundation Lightcache.Hashtab Heap

variable {σ : Type} {H : Host σ} {s s' s₁ s₂ : State σ} {a b q : Addr} {c c' c₁ : Ctx σ}
  {conn : Conn} {h : Heap σ} {ht : Cache} {r : Request} {f : Fields} {e : Entry}
  {w header payload : Bytes} {n : Nat} {Q B W : Multiset Addr} {ev : Event} {env : Env}
  {res : Result}

/-! ## Lending -/

/-- The response of the connection is the data of the entry `x`. -/
def Borrows (h : Heap σ) (conn : Conn) (x : Bytes × Option Addr) : Prop :=
  conn.out.canFree = false ∧ ∃ q r d, x.2 = some q ∧ h.reqs q = some r ∧
    r.rdata = some d ∧ conn.out.sdata = some d

/--
What the payload of a GET rests on, beside the ownership of requests: no command
removes an entry whose data another connection is still sending.
-/
def Considerate (H : Host σ) (s : State σ) (i : Input) : Prop :=
  Careful H s i ∧
    match i with
    | .ready a .read env => Conn.client (s.conn a) = true →
        ∀ x ∈ s.cache.live, Victim H (s.ctx a) env x →
          ∀ b ∈ s.conns, b ≠ a → Conn.client (s.conn b) = true →
            ¬ Borrows s.heap (s.conn b) x
    | _ => True

/-- The connection sends the data of a live entry, which is in its buffer. -/
structure Lent (h : Heap σ) (ht : Cache) (conn : Conn) (payload : Bytes) : Prop where
  borrows : ∃ x ∈ ht.live, Borrows h conn x
  backed : Backed h conn payload

theorem Lent.resumes {conn' : Conn} (hl : Lent h ht conn payload) (hr : Resumes conn conn') :
    Lent h ht conn' payload := by
  obtain ⟨x, hx, hfree, q, r, d, hval, hreq, hdata, hd⟩ := hl.borrows
  refine ⟨⟨x, hx, hr.canFree.trans hfree, q, r, d, hval, hreq, hdata, hr.sdata.trans hd⟩,
    fun hne => ?_⟩
  obtain ⟨d', bytes, hd', hbuf, hprefix⟩ := hl.backed hne
  exact ⟨d', bytes, hr.sdata.trans hd', hbuf, hprefix⟩

/-- The lender is among the entries that are left alone. -/
theorem Lent.agree {h' : Heap σ} {ht' : Cache} {kept : Contents}
    (hl : Lent h ht conn payload)
    (hkept : ∀ x ∈ ht.live, Borrows h conn x → x ∈ kept)
    (hafter : ∀ x ∈ kept, x ∈ ht'.live)
    (hagree : Agree (cachedReqs kept) (cachedBufs h kept) h h') :
    Lent h' ht' conn payload := by
  obtain ⟨⟨name, v⟩, hx, hb⟩ := hl.borrows
  have hmem := hkept _ hx hb
  obtain ⟨hfree, q, r, d, hval, hreq, hdata, hd⟩ := hb
  obtain rfl : v = some q := hval
  have hreq' : h'.reqs q = some r :=
    (hagree.reqs q (mem_cachedReqs.mpr ⟨name, hmem⟩)).trans hreq
  refine ⟨⟨_, hafter _ hmem, hfree, q, r, d, rfl, hreq', hdata, hd⟩, fun hne => ?_⟩
  obtain ⟨d', bytes, hd', hbuf, hprefix⟩ := hl.backed hne
  obtain rfl : d' = d := Option.some.inj (hd'.symm.trans hd)
  refine ⟨d', bytes, hd', ?_, hprefix⟩
  rw [hagree.bufs d' (Multiset.mem_of_le (buffers_le hreq hmem)
    (by simp [Request.buffers, hdata]))]
  exact hbuf

/-! ## The response of a GET -/

/-- The answer of a hit points into the cache. -/
theorem executeGet_shared (r : Request) : Ensures (executeGet H c r) fun c' =>
    c'.conn.out.retcode = Code.success.toByte → c'.conn.out.canFree = false := by
  have hmiss : ∀ c : Ctx σ, Ensures (getKeyNotexists c) fun c' =>
      c'.conn.out.retcode = Code.success.toByte → c'.conn.out.canFree = false :=
    fun c => (ensures_true _).bind fun _ _ hcode => by cases hcode
  refine (ensures_true _).bind fun key _ => (ensures_true _).bind fun ref _ => ?_
  cases ref with
  | none => exact hmiss _
  | some ref =>
      refine (ensures_true _).bind fun it _ => ?_
      dsimp only
      cases it.val with
      | none => trivial
      | some q =>
          refine (ensures_true _).bind fun cached _ => (ensures_true _).bind fun extra _ =>
            (ensures_true _).bind fun val _ => ?_
          cases val with
          | none => trivial
          | some val =>
              dsimp only
              split
              · exact (ensures_true _).bind fun c₁ _ => hmiss c₁
              · exact (ensures_true _).bind fun c₁ _ _ => rfl

/-- The entry that a GET has found. -/
structure Hit (h : Heap σ) (ht : Cache) (now : Int) (f : Fields) (e : Entry) : Prop where
  found : ∃ x ∈ ht.live, Clash ht.realsize x.1 f.key ∧ Holds h x.2 e
  fresh : ¬ Expired now e

theorem Outcome.hit {set : Settings} {now : Int} (ho : Outcome H h ht set q now f res)
    (hcmd : f.command = some .cmdGet) (hcode : res.code = .success) :
    ∃ e, Hit h ht now f e ∧ res.payload = e.data ∧ res.gone = 0 ∧ res.new = 0 := by
  cases ho with
  | getHit cmd live clash holds fresh =>
      exact ⟨_, ⟨⟨_, live, clash, holds⟩, fresh⟩, rfl, rfl, rfl⟩
  | getMiss => cases hcode
  | getExpired => cases hcode
  | _ => simp_all

/-! ## Every interleaving -/

/-- The response `header ++ payload` to be written after `w` at the connection `a`. -/
structure Delivering (s : State σ) (a : Addr) (w header payload : Bytes) : Prop where
  mem : a ∈ s.conns
  listening : (s.conn a).listening = false
  progress : (∃ n, (s.conn a).free = false ∧ Progressing (s.conn a) w header payload n ∧
      Lent s.heap s.cache (s.conn a) payload) ∨
    w ++ (header ++ payload) <+: (s.conn a).trace.written ∨
    ((s.conn a).free = true ∧ Follows w (header ++ payload) (s.conn a).trace.written)

theorem Delivering.follows (hd : Delivering s a w header payload) :
    Follows w (header ++ payload) (s.conn a).trace.written := by
  rcases hd.progress with ⟨n, -, hp, -⟩ | hdone | ⟨-, hfollows⟩
  · exact hp.follows
  · exact ⟨(List.prefix_append ..).trans hdone, .inr hdone⟩
  · exact hfollows

/-- An event on the connection that sends. -/
theorem Delivering.serve (hd : Delivering s a w header payload)
    (hfree : (s.conn a).free = false)
    (hstep : ClientStep H (s.ctx a) ev env Q B W c') (hlisten : c'.conn.listening = false)
    (hev : (s.conn a).interest = some ev) (hgrow : ev = .read → GrowsWell H (s.ctx a) env) :
    Delivering (s.put a c') a w header payload := by
  refine ⟨hd.mem, by rwa [put_conn_self], ?_⟩
  rw [put_conn_self]
  rcases hd.progress with ⟨n, -, hp, hl⟩ | hdone | ⟨htrue, -⟩
  · obtain rfl : ev = .write := Option.some.inj (hev.symm.trans hp.answering.interest)
    cases hstep.sends hp.answering hl.backed with
    | closed free state trace =>
        refine .inr (.inr ⟨free, ?_⟩)
        rw [trace]
        exact hp.follows
    | blocked answering resumes heap cache written =>
        refine .inl ⟨n, resumes.free.trans hfree, ⟨answering, written.trans hp.written⟩, ?_⟩
        change Lent c'.heap c'.cache c'.conn payload
        rw [heap, cache]
        exact hl.resumes resumes
    | sent answering resumes heap cache byte written =>
        refine .inl ⟨n + 1, resumes.free.trans hfree, ⟨answering, ?_⟩, ?_⟩
        · rw [written, take_succ_of_getElem? byte, ← List.append_assoc]
          exact congrArg (· ++ _) hp.written
        · change Lent c'.heap c'.cache c'.conn payload
          rw [heap, cache]
          exact hl.resumes resumes
    | finished last byte trace next =>
        refine .inr (.inl ?_)
        have hall : (header ++ payload).take (n + 1) = header ++ payload := by
          rw [last, List.take_length]
        have hw : c'.conn.trace.written = w ++ (header ++ payload) := by
          rw [trace, ← hall, take_succ_of_getElem? byte, ← List.append_assoc]
          exact congrArg (· ++ _) hp.written
        rw [hw]
  · exact .inr (.inl (hdone.trans (hstep.written hgrow)))
  · exact absurd (htrue.symm.trans hfree) (by decide)

theorem Follows.closed {conn conn' : Conn} (hf : Follows w (header ++ payload) conn.trace.written)
    (hc : Closed conn conn') : Follows w (header ++ payload) conn'.trace.written := by
  rwa [hc.trace]

/-- A round in which the connection is not served. -/
theorem Delivering.leave (hd : Delivering s a w header payload) (hmem : a ∈ s'.conns)
    (hconn : s'.conn a = s.conn a ∨ Closed (s.conn a) (s'.conn a))
    (hlent : Lent s.heap s.cache (s.conn a) payload → Lent s'.heap s'.cache (s.conn a) payload) :
    Delivering s' a w header payload := by
  rcases hconn with hsame | hclosed
  · refine ⟨hmem, by rw [hsame]; exact hd.listening, ?_⟩
    rw [hsame]
    exact hd.progress.imp (fun ⟨n, hfree, hp, hl⟩ => ⟨n, hfree, hp, hlent hl⟩) id
  · exact ⟨hmem, hclosed.listening.trans hd.listening,
      .inr (.inr ⟨hclosed.free, hd.follows.closed hclosed⟩)⟩

theorem Delivering.step (hd : Delivering s a w header payload) (hs : Sound H s)
    (hfree : (s.conn a).free = false) {i : Input} (hcare : Considerate H s i) :
    Post (Server.step H s i) (fun s' => Sound H s' ∧ Delivering s' a w header payload)
      StepFault := by
  have hclient : Conn.client (s.conn a) = true := by simp [Conn.client, hfree, hd.listening]
  refine (hs.happens hcare.1).imp fun s' hs' => ⟨hs'.1, ?_⟩
  obtain ⟨hsound, hhappens⟩ := hs'
  cases hhappens with
  | other undisturbed outlives settings trace =>
      obtain ⟨hmem, hconn⟩ := outlives a hd.mem hclient
      exact hd.leave hmem hconn fun hl =>
        hl.agree (fun x hx _ => hx) (fun x hx => undisturbed.cache ▸ hx) undisturbed.agree
  | @served b ev env c' mem client awaited step listening =>
      obtain ⟨hfreeb, hlistenb⟩ : (s.conn b).free = false ∧ (s.conn b).listening = false := by
        simpa [Conn.client] using client
      have hgrow : ev = .read → GrowsWell H (s.ctx b) env := by
        rintro rfl
        have hcareful := hcare.1
        rw [Careful, if_neg (by simp [hlistenb])] at hcareful
        exact (hcareful client).1
      by_cases hba : b = a
      · subst hba
        exact hd.serve hfree step listening awaited hgrow
      · obtain ⟨gone, new, kept, hm, hvictims⟩ := step.moved hfreeb hlistenb hgrow
        refine hd.leave hd.mem (.inl (put_conn_of_ne (Ne.symm hba))) fun hl =>
          hl.agree (fun x hx hborrows => ?_) (fun x hx => ?_)
            (hm.changed.agree.mono (Multiset.le_add_right ..) (Multiset.le_add_right ..))
        · have hbefore : s.cache.live = gone + kept := hm.changed.before
          rw [hbefore] at hx
          refine (Multiset.mem_add.mp hx).resolve_left fun hgone => ?_
          obtain ⟨rfl, hvictim⟩ := hvictims x hgone
          exact hcare.2 client x (by rw [hbefore]; exact hx) hvictim a hd.mem (Ne.symm hba)
            hclient hborrows
        · change x ∈ c'.cache.live
          rw [hm.changed.after]
          exact Multiset.mem_add.mpr (.inr hx)

theorem Delivering.run (hd : Delivering s a w header payload) (hs : Sound H s)
    {inputs : List Input}
    (hcare : Meets (Server.step H) (fun s i => Considerate H s i ∧ (s.conn a).free = false)
      s inputs) :
    Post (Foundation.run (Server.step H) s inputs)
      (fun s' => Sound H s' ∧ Delivering s' a w header payload) StepFault :=
  run_post (fun _ _ hs hcare => hs.2.step hs.1 hcare.2 hcare.1) ⟨hs, hd⟩ hcare

/-! ## The moment of the GET -/

theorem heard_written (conn : Conn) (rd : ReadResult) :
    (heard conn rd).trace.written = conn.trace.written := by
  cases rd <;> rfl

/-- The GET of a client that hits. -/
structure GetsHit (H : Host σ) (s : State σ) (a : Addr) (env : Env) (f : Fields)
    (s' : State σ) : Prop where
  mem : a ∈ s.conns
  client : Conn.client (s.conn a) = true
  executes : ∃ c q r, Executes H (s.ctx a) env c q r f
  command : f.command = some .cmdGet
  step : step H s (.ready a .read env) = .ok s'
  code : (s'.conn a).out.retcode = Code.success.toByte

theorem GetsHit.delivering (hg : GetsHit H s a env f s') (hs : Sound H s) :
    ∃ e, Hit s.heap s.cache (env.clock 1) f e ∧
      Delivering s' a (s.conn a).trace.written (s'.conn a).out.header e.data ∧
      (s'.conn a).out.dataLength = e.data.length := by
  obtain ⟨c, q, r, hexec⟩ := hg.executes
  obtain ⟨ret, hrun⟩ := hexec.run
  obtain ⟨q', r', f', hexec', hserving, hb, hconn⟩ := hs.executing hg.mem hg.client hrun
  obtain ⟨-, rfl, rfl, rfl⟩ := hexec'.unique hexec
  have hstep := hg.step
  rw [hs.step_executes hg.mem hg.client hexec] at hstep
  obtain ⟨c', hdone, hput⟩ := ok_of_bind_eq_ok hstep
  obtain rfl : s.put a c' = s' := Except.ok.inj hput
  have hcode := hg.code
  rw [put_conn_self] at hcode
  have hstate : c.conn.state = .cmdReceived := by rw [hconn]
  obtain ⟨-, res, hout, hserved⟩ :=
    ((executeCmd_post hserving hstate env).of_ok hdone).2
      (growthRefused_set (by simp [hg.command]))
  obtain ⟨e, ⟨⟨x, hx, hclash, hholds⟩, hfresh⟩, hpayload, -, -⟩ := hout.hit hg.command
    (Code.toByte_injective (hserved.reply.retcode.symm.trans hcode))
  have hcache : c.cache = s.cache := hb.cache
  have hshared : c'.conn.out.canFree = false := by
    have heq := executeCmd_eq hserving hstate env
    rw [hg.command] at heq
    exact ((executeGet_shared _).of_ok (heq.symm.trans hdone)) hcode
  rw [hcache] at hx hclash
  have hreply := hserved.reply
  rw [hpayload] at hreply
  obtain ⟨y, hy, q₀, r₀, hval, hr₀, hsdata⟩ := hserved.shared hshared
  have hlive : y ∈ c'.cache.live := by
    rw [hserved.changed.after]
    exact Multiset.mem_add.mpr (.inr hy)
  obtain ⟨e₀, q₁, r₁, hval₁, hcached⟩ := hserved.changed.store.cached y hlive
  obtain rfl : q₀ = q₁ := Option.some.inj (hval.symm.trans hval₁)
  obtain rfl := Option.some.inj (hr₀.symm.trans hcached.req)
  obtain ⟨d, -, hd, -⟩ := hcached.filled.data
  have hfree : c'.conn.free = false := by
    rw [hserved.conn]
    change c.conn.free = false
    rw [hconn]
    have hopen : (s.conn a).free = false := by
      have := hg.client
      simp only [Conn.client, Bool.and_eq_true, Bool.not_eq_true'] at this
      exact this.1
    cases env.read <;> exact hopen
  have hlisten : c'.conn.listening = false := by
    rw [hserved.conn]
    change c.conn.listening = false
    rw [hconn]
    have hclosed : (s.conn a).listening = false := by
      have := hg.client
      simp only [Conn.client, Bool.and_eq_true, Bool.not_eq_true'] at this
      exact this.2
    cases env.read <;> exact hclosed
  have hwritten : c'.conn.trace.written = (s.conn a).trace.written := by
    rw [hserved.conn]
    change c.conn.trace.written = _
    rw [hconn]
    exact heard_written ..
  have hbeside := hb.trans (beside_arrived hserving env)
  refine ⟨e, ⟨⟨x, hx, hclash, (hbeside.holds_iff hx).mp hholds⟩, hfresh⟩,
    ⟨hg.mem, by rwa [put_conn_self], .inl ⟨0, by rwa [put_conn_self], ⟨?_, ?_⟩, ?_⟩⟩, ?_⟩
  · rw [put_conn_self]
    exact ⟨hreply.interest, rfl, hreply.dataLength, hreply.small,
      .inl ⟨hreply.state, hreply.sbytes, by decide⟩⟩
  · rw [put_conn_self, hwritten, List.take_zero, List.append_nil]
  · rw [put_conn_self]
    exact ⟨⟨y, hlive, hshared, q₀, r₀, d, hval, hr₀, hd, hsdata.trans hd⟩,
      hreply.payload⟩
  · rw [put_conn_self]
    exact hreply.dataLength

/-- The bytes seen at the connection so far, and its next write. -/
structure Intact (s : State σ) (a : Addr) (w response : Bytes) : Prop where
  follows : Follows w response (s.conn a).trace.written
  /-- Until all is written the next byte is there. -/
  next : w ++ response <+: (s.conn a).trace.written ∨ (s.conn a).free = true ∨
    ∃ src b, (outgoing (s.ctx a)).1 = .ok src ∧ src[(s.conn a).out.sbytes]? = some b

theorem Delivering.intact (hd : Delivering s a w header payload) :
    Intact s a w (header ++ payload) := by
  refine ⟨hd.follows, ?_⟩
  rcases hd.progress with ⟨n, -, hp, hl⟩ | hdone | ⟨hfree, -⟩
  · exact .inr (.inr (Answering.sends_ok (c := s.ctx a) hp.answering hl.backed))
  · exact .inl hdone
  · exact .inr (.inl hfree)

section Runs

variable {settings : Settings} {heap : Heap σ} {fd : Nat} {env₀ : Env}

/-- A GET that hits is answered with the value that it has found. -/
theorem payload_intact (hboot : Boot H heap)
    (hstart : start H settings heap fd env₀ = .ok (some s)) {before after : List Input}
    (hbefore : Meets (step H) (Careful H) s (before ++ [.ready a .read env]))
    (hrun : run (step H) s before = .ok s₁) (hget : GetsHit H s₁ a env f s₂)
    (hafter : Meets (step H) (fun s i => Considerate H s i ∧ (s.conn a).free = false)
      s₂ after) :
    ∃ e, Hit s₁.heap s₁.cache (env.clock 1) f e ∧
      (s₂.conn a).out.dataLength = e.data.length ∧
      Post (run (step H) s₂ after) (fun s₃ => Intact s₃ a (s₁.conn a).trace.written
        ((s₂.conn a).out.header ++ e.data)) StepFault := by
  obtain ⟨hbefore, hlast⟩ := meets_append.mp hbefore
  have hs₁ := ((sound_start hboot hstart).run hbefore).of_ok hrun
  have hs₂ := (hs₁.step (hlast s₁ hrun).1).of_ok hget.step
  obtain ⟨e, hhit, hdelivering, hlength⟩ := hget.delivering hs₁
  exact ⟨e, hhit, hlength, (hdelivering.run hs₂ hafter).imp fun _ h => h.2.intact⟩

/-- Whether a command is a GET. -/
def isGet (_ : Addr) (f : Fields) (_ : Ctx σ) : Bool := f.command == some .cmdGet

/-- A value has been stored, and a GET has been sent up to its last byte. -/
def aboutToGet : List Input :=
  arrive 4 setPacket.encode ++ Server.take 4 8 ++ arrive 4 (getPacket.encode.take 12)

/-- The key of the GET ends in its only byte. -/
def lastByte : Env := hearing (.byte 107)

/-- Whether the GET that is under way at `a` hits, and what follows passes the test. -/
def hits (H : Host σ) (a : Addr) (p : State σ → Bool) (s : State σ) : Bool :=
  executesTo H a lastByte isGet s &&
    returns (step H s (.ready a .read lastByte)) fun s₂ =>
      (s₂.conn a).out.retcode == Code.success.toByte && p s₂

theorem exists_of_hits {p : State σ → Bool} (h : hits H a p s = true) :
    ∃ f s₂, GetsHit H s a lastByte f s₂ ∧ p s₂ = true := by
  rw [hits, Bool.and_eq_true] at h
  obtain ⟨ha, hclient, c, q, r, f, c', hexec, -, hget⟩ := exists_of_executesTo h.1
  obtain ⟨s₂, hs₂, htest⟩ := exists_of_returns h.2
  rw [Bool.and_eq_true, beq_iff_eq] at htest
  exact ⟨f, s₂, ⟨ha, hclient, ⟨c, q, r, hexec⟩, by simpa [isGet] using hget, hs₂, htest.1⟩,
    htest.2⟩

theorem considerate_of_test {i : Input} (h : carefulTest H s i = true) : Considerate H s i := by
  refine ⟨careful_of_test h, ?_⟩
  cases i with
  | idle env => trivial
  | ready a ev env =>
      cases ev with
      | write => trivial
      | read =>
          intro hclient x hx hv b hb hba hclient' hborrows
          have hlisten : (s.conn a).listening = false := (by simpa [Conn.client] using hclient :
            (s.conn a).free = false ∧ _).2
          exact Bool.false_ne_true
            (hborrows.1.symm.trans (spared_of_test h hlisten hx hv hb hba hclient').2)

/-- A second client stores a value of its own while the first one is answered. -/
def storesMeanwhile : List Input :=
  Server.take 4 4 ++ arrive 6 otherPacket.encode ++ Server.take 6 8 ++ Server.take 4 5

theorem payload_intact_beside :
    ∃ s, start (Host.lp64 Allocator.unlimited) ⟨0, 2⟩ (emptyHeap ∅) 3
        (hearing .eof) = .ok (some s) ∧
      ∃ s₁, run (step (Host.lp64 Allocator.unlimited)) s (knock 1 :: knock 1 :: aboutToGet) =
          .ok s₁ ∧
        ∃ f s₂, GetsHit (Host.lp64 Allocator.unlimited) s₁ 4 lastByte f s₂ ∧
          ∃ e, Hit s₁.heap s₁.cache 0 f e ∧
            (s₂.conn 4).out.dataLength = e.data.length ∧
            ∃ s₃, run (step (Host.lp64 Allocator.unlimited)) s₂ storesMeanwhile = .ok s₃ ∧
              Intact s₃ 4 (s₁.conn 4).trace.written ((s₂.conn 4).out.header ++ e.data) := by
  obtain ⟨s, hstart, htest⟩ : ∃ s, start (Host.lp64 Allocator.unlimited) ⟨0, 2⟩
      (emptyHeap ∅) 3 (hearing .eof) = .ok (some s) ∧
      (meetsTest (step (Host.lp64 Allocator.unlimited))
          (carefulTest (Host.lp64 Allocator.unlimited)) s
          (knock 1 :: knock 1 :: aboutToGet ++ [.ready 4 .read lastByte]) &&
        returns (run (step (Host.lp64 Allocator.unlimited)) s (knock 1 :: knock 1 :: aboutToGet))
          (hits (Host.lp64 Allocator.unlimited) 4 fun s₂ =>
            meetsTest (step (Host.lp64 Allocator.unlimited)) (fun s i =>
                carefulTest (Host.lp64 Allocator.unlimited) s i && !(s.conn 4).free)
                s₂ storesMeanwhile &&
              returns (run (step (Host.lp64 Allocator.unlimited)) s₂ storesMeanwhile)
                fun s₃ => s₃.conns.length == 3)) = true := ⟨_, rfl, by decide +kernel⟩
  rw [Bool.and_eq_true] at htest
  obtain ⟨s₁, hs₁, hhits⟩ := exists_of_returns htest.2
  obtain ⟨f, s₂, hget, hafter⟩ := exists_of_hits hhits
  rw [Bool.and_eq_true] at hafter
  obtain ⟨s₃, hs₃, -⟩ := exists_of_returns hafter.2
  obtain ⟨e, hhit, hlength, hintact⟩ := payload_intact (boot_emptyHeap rfl) hstart
    (meets_of_test htest.1 fun _ _ _ => careful_of_test) hs₁ hget
    (meets_of_test hafter.1 fun s i _ h => by
      rw [Bool.and_eq_true] at h
      exact ⟨considerate_of_test h.1, by simpa using h.2⟩)
  exact ⟨s, hstart, s₁, hs₁, f, s₂, hget, e, hhit, hlength, s₃, hs₃, hintact.of_ok hs₃⟩

/-- Another client deletes the key, and stores "X" under a second one. -/
def deletesAndStores : List Input :=
  knock 1 :: arrive 13 deletePacket.encode ++ Server.take 13 8 ++ arrive 13 otherPacket.encode

/-- The data of all live entries. -/
def holdsOnly (data : Bytes) (s : State σ) : Bool :=
  s.cache.items.all fun it => it.free ||
    match it.val.bind s.heap.reqs with
    | some r => (r.rdata.bind s.heap.bufs).map (·.take r.dataLength) == some data
    | none => true

theorem Hit.data_of_holdsOnly {data : Bytes} {now : Int} (hh : Hit s.heap s.cache now f e)
    (htest : holdsOnly data s = true) : e.data = data := by
  obtain ⟨x, hx, -, q, r, hval, hcached⟩ := hh.found
  obtain ⟨it, hit, hlive, rfl⟩ := mem_live.mp hx
  obtain ⟨d, bytes, hd, hbuf, -, hdata⟩ := hcached.filled.data
  have hitem := List.all_eq_true.mp htest it (Multiset.mem_coe.mp hit)
  dsimp only at hval
  simp only [hlive, hval, Bool.false_or, Option.bind_some, hcached.req, hd, hbuf,
    Option.map_some, beq_iff_eq, Option.some.injEq] at hitem
  rw [hdata, hitem]

/-- The client that waits for "v" is sent the other client's "X". -/
theorem payload_overwritten :
    ∃ s, start (Host.lp64 Allocator.recycling) ⟨0, 2⟩ (emptyHeap ∅) 3
        (hearing .eof) = .ok (some s) ∧
      ∃ s₁, run (step (Host.lp64 Allocator.recycling)) s (knock 1 :: aboutToGet) = .ok s₁ ∧
        ∃ f s₂, GetsHit (Host.lp64 Allocator.recycling) s₁ 4 lastByte f s₂ ∧
          ∃ s₃, run (step (Host.lp64 Allocator.recycling)) s₂
              (deletesAndStores ++ Server.take 4 9) = .ok s₃ ∧
            ∀ e, Hit s₁.heap s₁.cache 0 f e → ¬ Follows (s₁.conn 4).trace.written
              ((s₂.conn 4).out.header ++ e.data) (s₃.conn 4).trace.written := by
  refine ⟨_, rfl, Exists.imp (fun s₁ hs₁ => ⟨hs₁.1, ?_⟩) (exists_of_returns
    (p := fun s₁ => holdsOnly [118] s₁ && hits (Host.lp64 Allocator.recycling) 4 (fun s₂ =>
      returns (run (step (Host.lp64 Allocator.recycling)) s₂
        (deletesAndStores ++ Server.take 4 9)) fun s₃ => (s₃.conn 4).trace.written ==
          (s₁.conn 4).trace.written ++ ((s₂.conn 4).out.header ++ [88])) s₁) ?_)⟩
  · obtain ⟨hdata, hhits⟩ := Bool.and_eq_true_iff.mp hs₁.2
    obtain ⟨f, s₂, hget, htest⟩ := exists_of_hits hhits
    obtain ⟨s₃, hs₃, hwritten⟩ := exists_of_returns htest
    refine ⟨f, s₂, hget, s₃, hs₃, fun e he hfollows => ?_⟩
    rw [beq_iff_eq] at hwritten
    rw [hwritten, he.data_of_holdsOnly hdata] at hfollows
    simpa [List.prefix_append_right_inj] using hfollows.2
  · decide +kernel

end Runs

end Lightcache.Server
