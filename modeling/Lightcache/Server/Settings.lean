import Lightcache.Conversion
import Lightcache.Server.Dispatch
import Lightcache.Server.History

/-!
# The setting, from the request to the answer

An accepted CHG_SETTING is the only step of the server that changes a setting,
and GET_SETTING answers with the setting in network order.
-/

namespace Lightcache.Server

open Lightcache Lightcache.Foundation Lightcache.Hashtab

variable {σ : Type} {H : Host σ} {s s' : State σ} {a : Addr} {c c' d : Ctx σ} {q : Addr}
  {r : Request} {env : Env} {ev : Event} {i : Input} {n : Nat} {L : List Addr}

/-! ## What does not change a setting -/

/-- The settings are as before. -/
def SameSettings (c c' : Ctx σ) : Prop := c'.settings = c.settings

theorem SameSettings.trans (h : SameSettings c d) (h₁ : SameSettings d c') : SameSettings c c' :=
  Eq.trans h₁ h

theorem addResponse_keeps (h : SameSettings c d) (data : Option Addr) (n : Nat) (code : Code) :
    Ensures (addResponse d data n code) (SameSettings c) :=
  (ensures_true _).bind fun _ _ => ensures_ok.mpr h

theorem sendResponse_keeps (h : SameSettings c d) (code : Code) :
    Ensures (sendResponse d code) (SameSettings c) :=
  addResponse_keeps h none 0 code

theorem setReadHeader_keeps (h : SameSettings c d) :
    Ensures (setReadHeader H d) (SameSettings c) := by
  refine Ensures.bind (P := fun x => SameSettings c x.1) ?_ fun ⟨c₂, ok⟩ h₂ => ?_
  · refine freeRequest_settings.bind fun c₂ h₂ => freeResponse_settings.bind fun c₃ h₃ => ?_
    have hkeeps : SameSettings c c₃ := h.trans (SameSettings.trans h₂ h₃)
    rcases c₃.heap.mallocRequest H with ⟨_ | q, heap⟩
    · exact hkeeps
    · exact (ensures_true _).bind fun _ _ => ensures_ok.mpr hkeeps
  · cases ok with
    | true => exact h₂
    | false => exact disconnectConn_settings.imp fun _ h₃ => SameSettings.trans h₂ h₃

theorem setReadField_keeps (h : SameSettings c d) (f : Field) :
    Ensures (setReadField H d f) (SameSettings c) := by
  refine (ensures_true _).bind fun ⟨q, r⟩ _ => ?_
  dsimp only
  rcases d.heap.mallocBytes H (f.length r + 1) with ⟨_ | b, heap⟩
  · exact sendResponse_keeps (d := { d with heap := heap }) h .outOfMemory
  · exact h

theorem evict_keeps (h : SameSettings c d) (ref : ItemRef) :
    Ensures (evict H d ref) (SameSettings c) :=
  Ensures.bind ((ensures_true _).bind fun _ _ => (ensures_true _).bind fun _ _ =>
    ensures_ok.mpr h) fun _ h₂ => ensures_ok.mpr h₂

theorem getItem_keeps (r : Request) : Ensures (getItem H c r) (SameSettings c) := by
  refine (ensures_true _).bind fun key _ => (ensures_true _).bind fun ref _ => ?_
  cases ref with
  | none => exact addResponse_keeps rfl none 0 .keyNotexists
  | some ref =>
      refine (ensures_true _).bind fun it _ => ?_
      cases it.val with
      | none => trivial
      | some cachedReq =>
          refine (ensures_true _).bind fun cached _ => (ensures_true _).bind
            fun extra _ => (ensures_true _).bind fun val _ => ?_
          cases val with
          | none => trivial
          | some val =>
              dsimp only
              split
              · exact (evict_keeps rfl ref).bind fun c₁ h =>
                  addResponse_keeps (d := c₁.withStats _) h none 0 .keyNotexists
              · exact (addResponse_keeps (d := c.withStats _) rfl ..).bind
                  fun c₁ h => ensures_ok.mpr h

theorem keepRequest_keeps (h : SameSettings c d) (q : Addr) :
    Ensures (keepRequest d q) (SameSettings c) := by
  refine (ensures_true _).bind fun r _ => sendResponse_keeps ?_ .success
  exact h

theorem setItem_keeps (q : Addr) (r : Request) : Ensures (setItem H c q r) (SameSettings c) := by
  refine (ensures_true _).bind fun key _ => (ensures_true _).bind fun ⟨ret, cache, mem⟩ _ => ?_
  cases ret with
  | herror => exact sendResponse_keeps rfl .outOfMemory
  | hsuccess => exact keepRequest_keeps rfl q
  | hexists =>
      refine Ensures.bind (P := SameSettings c) ?_ fun c₁ h => keepRequest_keeps h q
      refine (ensures_true _).bind fun ref _ => ?_
      cases ref with
      | none => trivial
      | some ref =>
          exact Ensures.bind ((ensures_true _).bind fun _ _ => (ensures_true _).bind
            fun _ _ => ensures_ok.mpr rfl) fun _ h => ensures_ok.mpr h

theorem executeSet_keeps (q : Addr) (r : Request) :
    Ensures (executeSet H c q r) (SameSettings c) := by
  rw [executeSet, validateSet]
  split
  · exact sendResponse_keeps rfl .invalidParam
  · refine (ensures_true _).bind fun extra _ => (ensures_true _).bind fun val _ => ?_
    cases val with
    | none => exact sendResponse_keeps rfl .invalidParam
    | some val => exact setItem_keeps (c := c.withStats _) q r

theorem executeDelete_keeps (r : Request) : Ensures (executeDelete H c r) (SameSettings c) := by
  refine (ensures_true _).bind fun key _ => (ensures_true _).bind fun ref _ => ?_
  cases ref with
  | none => exact sendResponse_keeps rfl .keyNotexists
  | some ref => exact (evict_keeps rfl ref).bind fun _ h => sendResponse_keeps h .success

theorem executeGetSetting_keeps (r : Request) :
    Ensures (executeGetSetting H c r) (SameSettings c) := by
  refine (ensures_true _).bind fun key _ => (ensures_true _).bind fun names _ => ?_
  split
  · rcases c.heap.mallocBytes H 8 with ⟨_ | b, heap⟩
    · exact sendResponse_keeps rfl .outOfMemory
    · exact addResponse_keeps rfl ..
  · exact sendResponse_keeps rfl .invalidParam

theorem executeGetStats_keeps : Ensures (executeGetStats H c env) (SameSettings c) := by
  rw [executeGetStats]
  rcases c.heap.mallocBytes H lightcacheStatsSize with ⟨_ | b, heap⟩
  · exact sendResponse_keeps rfl .outOfMemory
  · exact (ensures_true _).bind fun _ _ => addResponse_keeps rfl ..

/-- Every command but CHG_SETTING leaves the settings alone. -/
theorem interpret_keeps (hcmd : ProtocolCommand.ofByte r.opcode ≠ some .cmdChgSetting) :
    Ensures (interpret H c q r env) (SameSettings c) := by
  rw [interpret]
  split
  · exact getItem_keeps (c := c.withStats _) r
  · exact executeSet_keeps q r
  · exact executeDelete_keeps r
  · exact (ensures_true _).bind fun _ _ => sendResponse_keeps rfl .success
  · rename_i hchg
    exact absurd hchg hcmd
  · exact executeGetSetting_keeps r
  · exact executeGetStats_keeps
  · exact sendResponse_keeps rfl .invalidCommand

theorem countBytes_keeps (h : SameSettings c d) (q : Addr) (nbytes : Int) (total : Nat) :
    Ensures (countBytes d q nbytes total) fun x => SameSettings c x.1 := by
  rw [countBytes]
  refine (ensures_true _).bind fun r _ => ?_
  dsimp only
  split <;> exact h

theorem readNbytes_keeps (target : Option Field) (total : Nat) (res : ReadResult) :
    Ensures (readNbytes c target total res) fun x => SameSettings c x.1 := by
  refine (ensures_true _).bind fun ⟨q, r⟩ _ => ?_
  cases res with
  | eof => exact rfl
  | wouldBlock => exact rfl
  | error => exact countBytes_keeps rfl q _ _
  | byte b => exact (ensures_true _).bind fun heap _ => countBytes_keeps rfl q _ _

theorem readHeader_keeps (res : ReadResult) :
    Ensures (readHeader H c res) fun x => SameSettings c x.1 := by
  refine (readNbytes_keeps _ _ _).bind fun ⟨c₁, ret⟩ h₁ => ?_
  dsimp only
  split
  · exact h₁
  · refine (ensures_true _).bind fun ⟨q, r⟩ _ => ?_
    dsimp only
    have h : SameSettings c { c₁ with heap := c₁.heap.writeRequest q (convertHeader r) } := h₁
    split
    · exact (sendResponse_keeps h _).bind fun _ h₂ => ensures_ok.mpr h₂
    · split
      · exact h
      · exact (setReadField_keeps h _).bind fun _ h₂ => ensures_ok.mpr h₂

theorem readField_keeps (f : Field) (next : Option Field) (res : ReadResult) :
    Ensures (readField H c f next res) fun x => SameSettings c x.1 := by
  refine (ensures_true _).bind fun _ _ => (readNbytes_keeps _ _ _).bind fun ⟨c₁, ret⟩ h₁ => ?_
  dsimp only
  split
  · exact h₁
  · refine (ensures_true _).bind fun _ _ => ?_
    cases next with
    | none => exact h₁
    | some g =>
        dsimp only
        split
        · exact h₁
        · exact (setReadField_keeps h₁ g).bind fun _ h₂ => ensures_ok.mpr h₂

theorem readRequest_keeps (res : ReadResult) :
    Ensures (readRequest H c res) fun x => SameSettings c x.1 := by
  rw [readRequest]
  split
  · exact readHeader_keeps res
  · exact (ensures_true _).bind fun _ _ => readField_keeps _ _ _
  · exact (ensures_true _).bind fun _ _ => readField_keeps _ _ _
  · exact readField_keeps _ _ _
  · exact (sendResponse_keeps rfl .invalidState).bind fun _ h => ensures_ok.mpr h

theorem sendNbytes_keeps (bytes : Except Fault Bytes) (total : Nat) (res : WriteResult) :
    Ensures (sendNbytes c bytes total res) fun x => SameSettings c x.1 := by
  cases res with
  | wouldBlock => exact rfl
  | error => exact rfl
  | sent =>
      refine (ensures_true _).bind fun src _ => ?_
      cases src[c.conn.out.sbytes]? with
      | none => trivial
      | some b => exact rfl

theorem trySendResponse_keeps (res : WriteResult) :
    Ensures (trySendResponse H c res) fun x => SameSettings c x.1 := by
  have hnext : ∀ {c₁ : Ctx σ} {ret : SocketState}, SameSettings c c₁ →
      Ensures (nextRequest H c₁ >>= fun c' => pure (c', ret)) fun x => SameSettings c x.1 :=
    fun h => (setReadHeader_keeps (d := Ctx.withConn _ _) h).bind fun _ h₂ => ensures_ok.mpr h₂
  rw [trySendResponse]
  split
  · refine (sendNbytes_keeps _ _ _).bind fun x h₁ => ?_
    obtain ⟨c₁, ret⟩ := x
    dsimp only
    split
    · exact h₁
    · split
      · exact h₁
      · exact hnext h₁
  · refine (sendNbytes_keeps _ _ _).bind fun x h₁ => ?_
    obtain ⟨c₁, ret⟩ := x
    dsimp only
    split
    · exact h₁
    · exact hnext h₁
  · exact (sendResponse_keeps rfl .invalidState).bind fun _ h => ensures_ok.mpr h

theorem sweep_keeps : Ensures (disconnectIdleFrom H L n env s) fun s' =>
    s'.settings = s.settings := by
  induction L generalizing s n with
  | nil => exact rfl
  | cons a L ih =>
      rw [disconnectIdleFrom]
      split
      · exact rfl
      · split
        · exact disconnectConn_settings.bind fun c' hc' =>
            (ih (s := s.put a c')).imp fun s' hs' => hs'.trans hc'
        · exact ih

theorem acceptConn_keeps : Ensures (acceptConn H s env) fun s' =>
    s'.settings = s.settings := by
  rw [acceptConn]
  cases env.accept with
  | none => exact rfl
  | some fd =>
      have hmake : (makeConn H s fd env).2.settings = s.settings := by
        rw [makeConn]
        dsimp only
        split
        · rfl
        · split <;> rfl
      dsimp only
      split
      · rename_i hnone
        rw [hnone] at hmake
        exact hmake
      · rename_i b s₁ hsome
        rw [hsome] at hmake
        exact (setReadHeader_keeps (c := s₁.ctx b) rfl).bind fun c' hc' =>
          ensures_ok.mpr (Eq.trans hc' hmake)

/-! ## What changes a setting -/

theorem executeChgSetting_keeps (r : Request) :
    Ensures (executeChgSetting c r) fun c' =>
      SameSettings c c' ∨ c'.conn.out.retcode = Code.success.toByte := by
  have hrefuse : Ensures (sendResponse c .invalidParam) fun c' =>
      SameSettings c c' ∨ c'.conn.out.retcode = Code.success.toByte :=
    (sendResponse_keeps rfl .invalidParam).imp fun _ => .inl
  rw [executeChgSetting]
  split
  · exact hrefuse
  · refine (ensures_true _).bind fun key _ => (ensures_true _).bind fun names _ => ?_
    split
    · refine (ensures_true _).bind fun data _ => (ensures_true _).bind fun val _ => ?_
      cases val with
      | none => exact hrefuse
      | some val => exact (ensures_true _).bind fun _ _ => .inr rfl
    · exact hrefuse

/-- The input is a CHG_SETTING that is answered with SUCCESS. -/
def Changes (H : Host σ) (s : State σ) (i : Input) (s' : State σ) : Prop :=
  ∃ a env c q r, i = .ready a .read env ∧ Dispatches H s a env c q r ∧
    ProtocolCommand.ofByte r.opcode = some .cmdChgSetting ∧
    (s'.conn a).out.retcode = Code.success.toByte

/-- An event that executes nothing. -/
theorem handleClient_keeps
    (hquiet : ev = .read → ∀ c₁ q r f, ¬ Executes H c env c₁ q r f) :
    Ensures (handleClient H c ev env) (SameSettings c) := by
  rw [handleClient]
  split
  · exact rfl
  dsimp only
  have hclose : ∀ {c₁ : Ctx σ} {ret : SocketState}, SameSettings c c₁ → ∀ bad : SocketState,
      Ensures (if ret = bad then disconnectConn H c₁ else .ok c₁) (SameSettings c) := by
    intro c₁ ret h bad
    split
    · exact disconnectConn_settings.imp fun _ h₂ => SameSettings.trans h h₂
    · exact h
  cases ev with
  | write => exact (trySendResponse_keeps env.write).bind fun _ h => hclose h .sendErr
  | read =>
      refine Ensures.bind (P := fun x => SameSettings c x.1) ?_ fun _ h => hclose h .readErr
      rw [tryReadRequest]
      change Ensures (readRequest H (touched c env) env.read >>= _) _
      cases hrun : readRequest H (touched c env) env.read with
      | error e => trivial
      | ok x =>
          obtain ⟨c₁, ret, received⟩ := x
          have hkeeps := (readRequest_keeps _).of_ok hrun
          rw [ok_bind]
          cases received with
          | false => exact hkeeps
          | true =>
              refine Ensures.bind (P := fun _ => False) (ensures_of_ok fun c₂ hc₂ => ?_)
                fun _ h => h.elim
              have hc₂ : executeCmd H c₁ env = .ok c₂ := hc₂
              rw [executeCmd] at hc₂
              split at hc₂
              · cases hc₂
              obtain ⟨⟨q, r⟩, hin, -⟩ := ok_of_bind_eq_ok hc₂
              rw [Ctx.readIn] at hin
              cases hreq : c₁.conn.inReq with
              | none => simp [hreq] at hin
              | some q₁ =>
                  rw [hreq] at hin
                  dsimp only at hin
                  rw [Heap.readRequest] at hin
                  cases hr : c₁.heap.reqs q₁ with
                  | none => simp [hr] at hin
                  | some r₁ => exact hquiet rfl c₁ q₁ r₁ _ ⟨⟨ret, hrun⟩, hreq, hr, rfl⟩

/-- No other step of the server changes a setting. -/
theorem step_keeps (s : State σ) (i : Input) :
    Ensures (step H s i) fun s' => s'.settings = s.settings ∨ Changes H s i s' := by
  cases i with
  | idle env => exact sweep_keeps.imp fun _ => .inl
  | ready a ev env =>
      by_cases hdispatch : ev = .read ∧ ∃ c q r, Dispatches H s a env c q r
      · obtain ⟨rfl, c, q, r, hd⟩ := hdispatch
        have hsettings : c.settings = s.settings := by
          obtain ⟨c₁, r₁, f, hexec, rfl, -⟩ := hd.executes
          obtain ⟨ret, hrun⟩ := hexec.run
          exact (readRequest_keeps (c := touched (s.ctx a) env) _).of_ok hrun
        rw [hd.step]
        by_cases hcmd : ProtocolCommand.ofByte r.opcode = some .cmdChgSetting
        · rw [interpret, hcmd]
          refine (executeChgSetting_keeps r).bind fun c' hc' => ?_
          rcases hc' with hc' | hc'
          · exact .inl (Eq.trans hc' hsettings)
          · refine .inr ⟨a, env, c, q, r, rfl, hd, hcmd, ?_⟩
            rw [put_conn_self]
            exact hc'
        · exact (interpret_keeps hcmd).bind fun c' hc' => .inl (Eq.trans hc' hsettings)
      · rw [step]
        split
        case isFalse => exact .inl rfl
        rename_i hguard
        rw [eventHandler]
        split
        · exact acceptConn_keeps.imp fun _ h => .inl h
        · rename_i hlisten
          refine (handleClient_keeps (c := s.ctx a) fun hev c₁ q r f hexec => ?_).bind
            fun c' hc' => .inl hc'
          obtain ⟨hopen, hinterest⟩ : (s.conn a).state ≠ .connClosed ∧
              (s.conn a).interest = some .read := by
            obtain ⟨ret, hrun⟩ := hexec.run
            have hstate := ((readRequest_completes _).of_ok hrun rfl).2
            change awaited (s.conn a).state = _ at hstate
            have hopen : (s.conn a).state ≠ .connClosed := fun h => by simp [h, awaited] at hstate
            exact ⟨hopen, hev ▸ hguard.2.resolve_right hopen⟩
          refine hdispatch ⟨hev, _, _, _, hguard.1, hinterest, ?_, c₁, r, f, hexec, rfl, rfl⟩
          by_contra hl
          exact hlisten ⟨hopen, by simpa using hl, hev⟩

/-! ## The round trip -/

/-- The parameter `key` of the command is the name of the setting. -/
def NamesSetting (c : Ctx σ) (r : Request) : Prop :=
  ∃ key, c.heap.load r.rkey = .ok (some key) ∧ cstr key = idleConnTimeoutName

/-- The input is a CHG_SETTING with a decimal numeral of `n`. -/
def SetsTimeout (H : Host σ) (s : State σ) (a : Addr) (env : Env) (n : Nat) : Prop :=
  ∃ c q r data, Dispatches H s a env c q r ∧
    ProtocolCommand.ofByte r.opcode = some .cmdChgSetting ∧ NamesSetting c r ∧
    c.heap.load r.rdata = .ok (some data) ∧ Decimal (cstr data) n

/-- The input is a GET_SETTING. -/
def GetsTimeout (H : Host σ) (s : State σ) (a : Addr) (env : Env) : Prop :=
  ∃ c q r, Dispatches H s a env c q r ∧
    ProtocolCommand.ofByte r.opcode = some .cmdGetSetting ∧ NamesSetting c r

theorem NamesSetting.strcmp (h : NamesSetting c r) :
    ∃ key, c.heap.load r.rkey = .ok key ∧
      strcmpEq key (some idleConnTimeoutName) = .ok true := by
  obtain ⟨key, hload, hkey⟩ := h
  have hname : cstr idleConnTimeoutName = idleConnTimeoutName := by decide
  exact ⟨_, hload, by rw [strcmpEq_some, hkey, hname]; simp⟩

theorem SetsTimeout.step (h : SetsTimeout H s a env n) (hn : 1 ≤ n) (hlt : n < 2 ^ 64) :
    ∃ s', Server.step H s (.ready a .read env) = .ok s' ∧
      (s'.conn a).out.retcode = Code.success.toByte ∧ s'.settings.idleConnTimeout = n := by
  obtain ⟨c, q, r, data, hd, hcmd, hnames, hdata, hn'⟩ := h
  obtain ⟨key, hkey, hstrcmp⟩ := hnames.strcmp
  have hpresent : r.rdata ≠ none := fun hnone => by
    rw [hnone] at hdata
    cases hdata
  have hvalue : atoull (some data) = .ok (some n) := by
    rw [atoull_some, ← atoullValue_cstr, hn'.atoull hn hlt]
  obtain ⟨c', hsend, hcode, hsettings⟩ : ∃ c', sendResponse { c with settings :=
      { c.settings with idleConnTimeout := n } } .success = .ok c' ∧
      c'.conn.out.retcode = Code.success.toByte ∧ c'.settings.idleConnTimeout = n :=
    ⟨_, addResponse_eq (c := { c with settings := { c.settings with idleConnTimeout := n } })
      hd.inReq.1 hd.inReq.2 none 0 .success, rfl, rfl⟩
  refine ⟨s.put a c', ?_, by rwa [put_conn_self], hsettings⟩
  rw [hd.step, interpret, hcmd]
  dsimp only
  rw [executeChgSetting, if_neg hpresent, hkey, ok_bind, hstrcmp, ok_bind, if_pos rfl,
    hdata, ok_bind, hvalue, ok_bind]
  dsimp only
  rw [hsend, ok_bind]

theorem GetsTimeout.step (h : GetsTimeout H s a env) (hA : H.alloc.NeverFails) :
    ∃ s', Server.step H s (.ready a .read env) = .ok s' ∧
      (s'.conn a).out.retcode = Code.success.toByte ∧
      payloadOf s'.heap (s'.conn a).out =
        netBytes 8 (BitVec.ofNat 64 s.settings.idleConnTimeout).toNat := by
  obtain ⟨c, q, r, hd, hcmd, hnames⟩ := h
  obtain ⟨key, hkey, hstrcmp⟩ := hnames.strcmp
  have hsettings : c.settings = s.settings := by
    obtain ⟨c₁, r₁, f, hexec, rfl, -⟩ := hd.executes
    obtain ⟨ret, hrun⟩ := hexec.run
    exact (readRequest_keeps (c := touched (s.ctx a) env) _).of_ok hrun
  obtain ⟨b, heap, hmalloc, hreqs⟩ : ∃ b heap, c.heap.mallocBytes H 8 = (some b, heap) ∧
      heap.reqs = c.heap.reqs := by
    rw [Heap.mallocBytes]
    rcases hm : liMalloc H.alloc c.heap.mem 8 with ⟨_ | b, mem⟩
    · exact absurd hm (liMalloc_ne_none hA (by decide))
    · exact ⟨b, _, rfl, rfl⟩
  obtain ⟨bytes, hbytes⟩ : ∃ bytes, bytes =
      H.endian.store 8 (htonll H.endian (BitVec.ofNat 64 c.settings.idleConnTimeout)).toNat :=
    ⟨_, rfl⟩
  obtain ⟨c', hsend, hcode, hpayload⟩ : ∃ c', addResponse { c with
      heap := heap.writeBytes b bytes } (some b) 8 .success = .ok c' ∧
      c'.conn.out.retcode = Code.success.toByte ∧ payloadOf c'.heap c'.conn.out =
        (((heap.writeBytes b bytes).bufs b).getD []).take 8 :=
    ⟨_, addResponse_eq (c := { c with heap := heap.writeBytes b bytes }) hd.inReq.1
      ((congrFun hreqs q).trans hd.inReq.2) (some b) 8 .success, rfl, rfl⟩
  refine ⟨s.put a c', ?_, by rwa [put_conn_self], ?_⟩
  · rw [hd.step, interpret, hcmd]
    dsimp only
    rw [executeGetSetting, hkey, ok_bind, hstrcmp, ok_bind, if_pos rfl, hmalloc]
    dsimp only
    rw [← hbytes, hsend, ok_bind]
  · rw [put_conn_self]
    refine hpayload.trans ?_
    rw [Heap.writeBytes_bufs, Option.getD_some, hbytes, store_htonll, hsettings]
    exact List.take_of_length_le (by simp)

/-- The setting that a client changes is the one that it reads back. -/
theorem setting_round_trip (hA : H.alloc.NeverFails) (hn : 1 ≤ n) (hlt : n < 2 ^ 64)
    (hset : SetsTimeout H s a env n) :
    (∃ s₁, step H s (.ready a .read env) = .ok s₁ ∧
      (s₁.conn a).out.retcode = Code.success.toByte ∧
      ∀ inputs, Throughout (step H) (fun s i s' => ¬ Changes H s i s') s₁ inputs →
        ∀ s₂, run (step H) s₁ inputs = .ok s₂ → ∀ b env₂, GetsTimeout H s₂ b env₂ →
          ∃ s₃, step H s₂ (.ready b .read env₂) = .ok s₃ ∧
            (s₃.conn b).out.retcode = Code.success.toByte ∧
            (payloadOf s₃.heap (s₃.conn b).out).length = 8 ∧
            netNat (payloadOf s₃.heap (s₃.conn b).out) = n) ∧
      ∀ host v, ntohll host (htonll host v) = v ∧ htonll host (ntohll host v) = v := by
  refine ⟨?_, fun host v => ⟨ntohll_htonll host v, ntohll_htonll host v⟩⟩
  obtain ⟨s₁, hs₁, hcode, htimeout⟩ := hset.step hn hlt
  refine ⟨s₁, hs₁, hcode, fun inputs hquiet s₂ hs₂ b env₂ hget => ?_⟩
  have hkept : s₂.settings.idleConnTimeout = n := by
    refine (hquiet.keeps (I := fun s => s.settings.idleConnTimeout = n)
      (fun s i s' hchanges hstep hs => ?_) htimeout).of_ok hs₂
    rw [((step_keeps s i).of_ok hstep).resolve_right hchanges, hs]
  obtain ⟨s₃, hs₃, hcode₃, hpayload⟩ := hget.step hA
  refine ⟨s₃, hs₃, hcode₃, ?_, ?_⟩
  · rw [hpayload, length_netBytes]
  · rw [hpayload, netNat_netBytes, hkept, BitVec.toNat_ofNat]
    omega

def chgPacket : Packet :=
  ⟨⟨2, idleConnTimeoutName, ascii "7", []⟩, by decide, by decide, by decide⟩

/-- Whether the command is CHG_SETTING with the numeral `7`. -/
def setsSeven (c : Ctx σ) (r : Request) : Bool :=
  ProtocolCommand.ofByte r.opcode = some .cmdChgSetting &&
    returns (c.heap.load r.rkey) (fun key => key == some (idleConnTimeoutName ++ [0])) &&
    returns (c.heap.load r.rdata) (fun data => data == some [55, 0])

theorem setsTimeout_of_test (h : dispatchTest H s a env setsSeven = true) :
    SetsTimeout H s a env 7 := by
  obtain ⟨c, q, r, hd, h⟩ := dispatches_of_test h
  simp only [setsSeven, Bool.and_eq_true, decide_eq_true_eq] at h
  obtain ⟨⟨hcmd, hkey⟩, hdata⟩ := h
  obtain ⟨key, hload, hkey⟩ := exists_of_returns hkey
  obtain ⟨data, hload', hdata⟩ := exists_of_returns hdata
  obtain rfl := beq_iff_eq.mp hkey
  obtain rfl := beq_iff_eq.mp hdata
  have hstr : cstr [55, 0] = ascii "7" := by decide
  refine ⟨c, q, r, [55, 0], hd, hcmd, ⟨_, hload, by decide⟩, hload', ?_⟩
  rw [hstr]
  exact decimal_formatUnsigned 7

/-- A client sets the timeout to seven seconds. -/
theorem setting_round_trip_seven :
    ∃ s, start (Host.lp64 Allocator.unlimited) ⟨0, 2⟩ (emptyHeap ∅) 3
        (hearing .eof) = .ok (some s) ∧
      ∃ s', run (step (Host.lp64 Allocator.unlimited)) s
          (knock 1 :: arrive 4 chgPacket.encode.dropLast) = .ok s' ∧
        (∃ s₁, step (Host.lp64 Allocator.unlimited) s'
            (.ready 4 .read (hearing (.byte 55))) = .ok s₁ ∧
          (s₁.conn 4).out.retcode = Code.success.toByte ∧
          ∀ inputs, Throughout (step (Host.lp64 Allocator.unlimited)) (fun s i s' =>
              ¬ Changes (Host.lp64 Allocator.unlimited) s i s') s₁ inputs →
            ∀ s₂, run (step (Host.lp64 Allocator.unlimited)) s₁ inputs = .ok s₂ →
              ∀ b env₂, GetsTimeout (Host.lp64 Allocator.unlimited) s₂ b env₂ →
                ∃ s₃, step (Host.lp64 Allocator.unlimited) s₂ (.ready b .read env₂) =
                    .ok s₃ ∧
                  (s₃.conn b).out.retcode = Code.success.toByte ∧
                  (payloadOf s₃.heap (s₃.conn b).out).length = 8 ∧
                  netNat (payloadOf s₃.heap (s₃.conn b).out) = 7) ∧
          ∀ host v, ntohll host (htonll host v) = v ∧ htonll host (ntohll host v) = v :=
  ⟨_, rfl, Exists.imp (fun _ hs' => ⟨hs'.1, setting_round_trip Allocator.neverFails_unlimited
    (by decide) (by decide) (setsTimeout_of_test hs'.2)⟩)
    (exists_of_returns (p := fun s' => dispatchTest (Host.lp64 Allocator.unlimited) s' 4
      (hearing (.byte 55)) setsSeven) (by decide +kernel))⟩

end Lightcache.Server
