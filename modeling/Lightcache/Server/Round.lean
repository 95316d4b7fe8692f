import Lightcache.Server.Tally
import Lightcache.Server.Sweep

/-!
# One round of the event loop

What one input does to the whole server: it serves one connection, and leaves
the others and their part of the memory alone, or it opens and closes
connections without touching the cache.
-/

namespace Lightcache.Server

open Lightcache Lightcache.Foundation Lightcache.Hashtab Heap

variable {σ : Type} {H : Host σ} {s s' : State σ} {a b q : Addr} {c c' c₁ : Ctx σ}
  {r : Request} {f : Fields} {Q B W : Multiset Addr} {ev : Event} {env : Env}
  {ret : SocketState}

/-! ## A command that is about to be executed -/

/-- A connection that sends is not asked for a command. -/
theorem readRequest_sending (hsend : IsSending c.conn) (res : ReadResult) :
    readRequest H c res ≠ .ok (c₁, ret, true) := by
  intro hrun
  rcases hsend with hstate | hstate
  all_goals
    rw [readRequest, hstate] at hrun
    obtain ⟨c₂, -, hrest⟩ := ok_of_bind_eq_ok hrun
    cases hrest

theorem Open.executing (ho : Open c.heap c.cache c.conn)
    (hs : Store H c.heap c.cache (connReqs c.heap c.conn + Q)
      (connBufs c.heap c.conn + B) W)
    (hrun : readRequest H (Server.touched c env) env.read = .ok (c₁, ret, true)) :
    ∃ q r f, Executes H c env c₁ q r f ∧
      Serving H c₁.heap c₁.cache c₁.conn q r f Q B W ∧ Beside c c₁ Q B ∧
      c₁.conn = { heard (Server.touched c env).conn env.read with state := .cmdReceived } := by
  rcases ho.phase with ⟨q, r, f, hd, hrd⟩ | hsend
  · have hread := ((hd.holding (hd.store hrd hs)).touched env).readRequest
      (hrd.touched env) env.read
    rw [hrun] at hread
    obtain ⟨r₁, f₁, hreads, hh₁, hb₁⟩ := hread
    dsimp only at hreads hh₁ hb₁
    rcases hreads.elim (hrd.touched env) with
      ⟨hfalse, -⟩ | ⟨hfalse, -⟩ | ⟨hfalse, -⟩ | ⟨-, -, hconn, hkey, hdata, hextra, hsmall⟩
    · cases hfalse
    · cases hfalse
    · cases hfalse
    · have hserving := hh₁.serving hkey hdata hextra hsmall rfl
      exact ⟨q, r₁, f₁, ⟨⟨ret, hrun⟩, hserving.inReq, hserving.req,
        hserving.delivered.fields⟩, hserving, beside_touched.trans hb₁, hconn⟩
  · exact absurd hrun (readRequest_sending (c := Server.touched c env) hsend.state _)

/-- The view that a connection has when its command is executed. -/
theorem Sound.executing (hs : Sound H s) (ha : a ∈ s.conns)
    (hclient : Conn.client (s.conn a) = true)
    (hrun : readRequest H (touched (s.ctx a) env) env.read = .ok (c₁, ret, true)) :
    ∃ q r f, Executes H (s.ctx a) env c₁ q r f ∧
      Serving H c₁.heap c₁.cache c₁.conn q r f (s.reqsOf (s.others a))
        (s.bufsOf (s.others a)) ↑s.conns ∧
      Beside (s.ctx a) c₁ (s.reqsOf (s.others a)) (s.bufsOf (s.others a)) ∧
      c₁.conn = { Server.heard (touched (s.ctx a) env).conn env.read with
        state := .cmdReceived } := by
  have hflags : (s.conn a).free = false ∧ (s.conn a).listening = false := by
    simpa [Conn.client] using hclient
  have hsplit := hs.split ha
  rw [heldReqs_client hflags.1 hflags.2, heldBufs_client hflags.1 hflags.2] at hsplit
  exact Open.executing (c := s.ctx a) (hs.clients a ha hclient) hsplit hrun

/-- Only a connection that reads is asked for a command. -/
theorem Open.awaiting (ho : Open c.heap c.cache c.conn)
    (hs : Store H c.heap c.cache (connReqs c.heap c.conn + Q)
      (connBufs c.heap c.conn + B) W)
    (hrun : readRequest H (Server.touched c env) env.read = .ok (c₁, ret, true)) :
    ret ≠ .readErr ∧ c.conn.interest = some .read ∧ c.conn.state ≠ .connClosed := by
  rcases ho.phase with ⟨q, r, f, hd, hrd⟩ | hsend
  · have hread := ((hd.holding (hd.store hrd hs)).touched env).readRequest
      (hrd.touched env) env.read
    rw [hrun] at hread
    obtain ⟨r₁, f₁, hreads, -, -⟩ := hread
    have hret : ret ≠ .readErr := by
      rcases hreads.elim (hrd.touched env) with
        ⟨hfalse, -⟩ | ⟨hfalse, -⟩ | ⟨hfalse, -⟩ | ⟨-, hret, -⟩
      · cases hfalse
      · cases hfalse
      · cases hfalse
      · exact hret
    refine ⟨hret, hrd.interest, fun hclosed => ?_⟩
    have := hrd.shape
    rw [hclosed] at this
    exact this
  · exact absurd hrun (readRequest_sending (c := Server.touched c env) hsend.state _)

/-- The step of the server in which a command is executed. -/
theorem Sound.step_executes (hs : Sound H s) (ha : a ∈ s.conns)
    (hclient : Conn.client (s.conn a) = true) (hexec : Executes H (s.ctx a) env c q r f) :
    Server.step H s (.ready a .read env) =
      executeCmd H c env >>= fun c' => .ok (s.put a c') := by
  obtain ⟨ret, hrun⟩ := hexec.run
  have hflags : (s.conn a).free = false ∧ (s.conn a).listening = false := by
    simpa [Conn.client] using hclient
  have hsplit := hs.split ha
  rw [heldReqs_client hflags.1 hflags.2, heldBufs_client hflags.1 hflags.2] at hsplit
  obtain ⟨hret, hinterest, hopen⟩ := Open.awaiting (c := s.ctx a)
    (hs.clients a ha hclient) hsplit hrun
  have hhandle : handleClient H (s.ctx a) .read env = executeCmd H c env := by
    rw [handleClient, if_neg hopen]
    dsimp only
    change (tryReadRequest H (touched (s.ctx a) env) env >>= _) = _
    rw [tryReadRequest, hrun, ok_bind]
    dsimp only
    rw [if_pos rfl, bind_assoc]
    cases executeCmd H c env with
    | error e => rfl
    | ok c' =>
        rw [ok_bind]
        change (if ret = .readErr then disconnectConn H c' else .ok c') = _
        rw [if_neg hret]
  rw [Server.step, if_pos ⟨ha, .inl hinterest⟩, eventHandler,
    if_neg fun h => by simp [hflags.2] at h, hhandle]
  rfl

/-- An event executes at most one command. -/
theorem Executes.unique {c₂ : Ctx σ} {q₂ : Addr} {r₂ : Request} {f₂ : Fields}
    (h : Executes H c env c₁ q r f) (h₂ : Executes H c env c₂ q₂ r₂ f₂) :
    c₂ = c₁ ∧ q₂ = q ∧ r₂ = r ∧ f₂ = f := by
  obtain ⟨ret, hrun⟩ := h.run
  obtain ⟨ret₂, hrun₂⟩ := h₂.run
  obtain ⟨rfl, -⟩ := Prod.mk.inj (Except.ok.inj (hrun₂.symm.trans hrun))
  obtain rfl := Option.some.inj (h₂.inReq.symm.trans h.inReq)
  obtain rfl := Option.some.inj (h₂.req.symm.trans h.req)
  exact ⟨rfl, rfl, rfl, h₂.fields.symm.trans h.fields⟩

/-! ## What a round leaves alone -/

/-- The connections that were open are as before, or have been closed. -/
def Outlives (s s' : State σ) : Prop :=
  ∀ b ∈ s.conns, Conn.client (s.conn b) = true →
    b ∈ s'.conns ∧ (s'.conn b = s.conn b ∨ Closed (s.conn b) (s'.conn b))

/-- One round of the event loop. -/
inductive Happens (H : Host σ) (s : State σ) : Input → State σ → Prop
  | served {a : Addr} {ev : Event} {env : Env} {c' : Ctx σ} (mem : a ∈ s.conns)
      (client : Conn.client (s.conn a) = true)
      (awaited : (s.conn a).interest = some ev)
      (step : ClientStep H (s.ctx a) ev env (s.reqsOf (s.others a))
        (s.bufsOf (s.others a)) ↑s.conns c')
      (listening : c'.conn.listening = false) : Happens H s (.ready a ev env) (s.put a c')
  | other {i : Input} {s' : State σ} (undisturbed : Undisturbed s s') (outlives : Outlives s s')
      (settings : s'.settings = s.settings)
      (trace : ∀ a ev env, i = .ready a ev env → (s'.conn a).trace = (s.conn a).trace) :
      Happens H s i s'

theorem Outlives.refl (s : State σ) : Outlives s s := fun _ hb _ => ⟨hb, .inl rfl⟩

theorem Closed.trans {conn conn₁ conn' : Conn} (h : Closed conn conn₁)
    (h₁ : Closed conn₁ conn') : Closed conn conn' :=
  ⟨h₁.free, h₁.state, h₁.sdata, h₁.interest, h₁.listening.trans h.listening,
    h₁.trace.trans h.trace⟩

/-- A structure that is handed out was not in use. -/
theorem Made.notInUse {fd : Nat} (h : Made H s fd env b s') (hs : Sound H s) :
    ∀ a ∈ s.conns, (s.conn a).free = false → a ≠ b := by
  rintro a ha hopen rfl
  rcases h.conns with ⟨-, -, hfree⟩ | ⟨-, mem, hm⟩
  · rw [hopen] at hfree
    cases hfree
  · exact hs.newBlock_notMem hm ha

theorem Made.mem_of_mem {fd : Nat} (h : Made H s fd env b s') (ha : a ∈ s.conns) :
    a ∈ s'.conns := by
  rcases h.conns with ⟨hconns, -⟩ | ⟨hconns, -⟩
  · rwa [hconns]
  · rw [hconns]
    exact List.mem_cons_of_mem _ ha

theorem makeConn_same (H : Host σ) (s : State σ) (fd : Nat) (env : Env) :
    (makeConn H s fd env).2.settings = s.settings ∧
      (makeConn H s fd env).2.cache = s.cache := by
  rw [makeConn]
  cases s.conns.find? fun a => (s.conn a).free with
  | some b => exact ⟨rfl, rfl⟩
  | none =>
      rcases liMalloc H.alloc s.heap.mem sizeofConn with ⟨_ | b, mem⟩ <;> exact ⟨rfl, rfl⟩

theorem initResources_settings :
    Ensures (initResources H c) fun x => x.1.settings = c.settings := by
  refine freeRequest_settings.bind fun c₁ h₁ => freeResponse_settings.bind fun c₂ h₂ => ?_
  rcases c₂.heap.mallocRequest H with ⟨_ | q, heap⟩
  · exact h₂.trans h₁
  · exact (ensures_true _).bind fun r _ => h₂.trans h₁

theorem setReadHeader_settings :
    Ensures (setReadHeader H c) fun c' => c'.settings = c.settings := by
  refine initResources_settings.bind fun ⟨c₁, ok⟩ h₁ => ?_
  cases ok with
  | true => exact h₁
  | false => exact disconnectConn_settings.imp fun _ h => h.trans h₁

/-- A new connection leaves the structures in use as they are. -/
theorem accept_inUse (hs : Sound H s) (env : Env) : Ensures (acceptConn H s env) fun s' =>
    s'.settings = s.settings ∧ ∀ a ∈ s.conns, (s.conn a).free = false →
      a ∈ s'.conns ∧ s'.conn a = s.conn a := by
  rw [acceptConn]
  cases env.accept with
  | none => exact ⟨rfl, fun a ha _ => ⟨ha, rfl⟩⟩
  | some fd =>
      have hmade := makeConn_effect H s fd env
      have hset : (makeConn H s fd env).2.settings = s.settings :=
        (makeConn_same H s fd env).1
      dsimp only
      rcases hrun : makeConn H s fd env with ⟨_ | b, s'⟩
      · rw [hrun] at hmade hset
        obtain ⟨hconns, hconn, -⟩ := hmade
        exact ⟨hset, fun a ha _ => ⟨hconns ▸ ha, by rw [hconn]⟩⟩
      · rw [hrun] at hmade hset
        refine setReadHeader_settings.bind fun c' hc' => ⟨hc'.trans hset, fun a ha hfree => ?_⟩
        have hne := hmade.notInUse hs a ha hfree
        exact ⟨hmade.mem_of_mem ha, (put_conn_of_ne hne).trans (hmade.other a hne)⟩

theorem Outlives.sweep {L : List Addr} (hs : Sound H s) (hL : ∀ a ∈ L, a ∈ s.conns)
    (i : Nat) (env : Env) :
    Ensures (disconnectIdleFrom H L i env s) fun s' => s'.conns = s.conns ∧
      s'.settings = s.settings ∧
      ∀ b, s'.conn b = s.conn b ∨ Closed (s.conn b) (s'.conn b) := by
  induction L generalizing s i with
  | nil => exact ⟨rfl, rfl, fun b => .inl rfl⟩
  | cons a L ih =>
      have hrest : ∀ b ∈ L, b ∈ s.conns := fun b hb => hL b (List.mem_cons_of_mem _ hb)
      rw [disconnectIdleFrom]
      split
      · exact ⟨rfl, rfl, fun b => .inl rfl⟩
      · rename_i hstop
        split
        · obtain ⟨c', hc', hsound, hb, hclosed⟩ := hs.disconnect (hL a (by simp))
            (by simpa [Conn.client] using hstop)
          rw [hc', ok_bind]
          refine (ih hsound hrest _).imp fun s' hs' =>
            ⟨hs'.1, hs'.2.1.trans hb.settings, fun b => ?_⟩
          by_cases hba : b = a
          · subst hba
            have hself := hs'.2.2 b
            rw [put_conn_self] at hself
            rcases hself with hself | hself
            · exact .inr (hself ▸ hclosed)
            · exact .inr (hclosed.trans hself)
          · have hother := hs'.2.2 b
            rwa [put_conn_of_ne hba] at hother
        · exact ih hs hrest _

/-- An event that is not for the listening socket changes one connection. -/
theorem Sound.serve (hs : Sound H s) (ha : a ∈ s.conns)
    (hlisten : (s.conn a).listening = false)
    (hcare : Careful H s (.ready a ev env)) :
    Post (Server.step H s (.ready a ev env))
      (fun s' => Sound H s' ∧ ∃ c', s' = s.put a c' ∧ c'.conn.listening = false ∧
        (c' = s.ctx a ∨ Conn.client (s.conn a) = true ∧ (s.conn a).interest = some ev ∧
          ClientStep H (s.ctx a) ev env (s.reqsOf (s.others a))
            (s.bufsOf (s.others a)) ↑s.conns c')) StepFault := by
  refine (hs.step hcare).and_ensures ?_
  have hidle : ∃ c', s = s.put a c' ∧ c'.conn.listening = false ∧
      (c' = s.ctx a ∨ Conn.client (s.conn a) = true ∧ (s.conn a).interest = some ev ∧
        ClientStep H (s.ctx a) ev env (s.reqsOf (s.others a))
          (s.bufsOf (s.others a)) ↑s.conns c') :=
    ⟨s.ctx a, (put_ctx s a).symm, hlisten, .inl rfl⟩
  rw [Server.step]
  split
  case isFalse => exact hidle
  rename_i hguard
  have hev := hguard.2
  rw [eventHandler, if_neg fun h => by simp [hlisten] at h]
  by_cases hclosed : (s.conn a).state = .connClosed
  · rw [handleClient_closed (c := s.ctx a) hclosed, ok_bind]
    exact ⟨s.ctx a, rfl, hlisten, .inl rfl⟩
  replace hev := hev.resolve_right hclosed
  have hfree : (s.conn a).free = false := by
    by_contra hfree
    exact hclosed (hs.idle a ha (by simpa using hfree)).1.state
  have hclient : Conn.client (s.conn a) = true := by simp [Conn.client, hfree, hlisten]
  have hsplit := hs.split ha
  rw [heldReqs_client hfree hlisten, heldBufs_client hfree hlisten] at hsplit
  have hpost := handleClient_post (c := s.ctx a) (hs.clients a ha hclient) hsplit hev env
  refine Ensures.bind (P := ClientStep H (s.ctx a) ev env (s.reqsOf (s.others a))
      (s.bufsOf (s.others a)) ↑s.conns)
    (hpost.mono (fun _ h => h) fun _ _ => trivial) fun c' hc' => ?_
  obtain ⟨gone, new, kept, hm, -⟩ := hc'.moved hfree hlisten (by
    rintro rfl
    rw [Careful, if_neg (by simp [hlisten])] at hcare
    exact (hcare hclient).1)
  exact ⟨c', rfl, hm.listening, .inr ⟨hclient, hev, hc'⟩⟩

theorem Sound.happens (hs : Sound H s) {i : Input} (hcare : Careful H s i) :
    Post (Server.step H s i) (fun s' => Sound H s' ∧ Happens H s i s') StepFault := by
  cases i with
  | idle env =>
      have hsweep := hs.sweep (fun _ h => h) 0 env
      have houtlives := Outlives.sweep hs (fun _ h => h) 0 env
      refine ((hsweep.mono (fun _ h => h) fun _ => False.elim).and_ensures houtlives).imp ?_
      rintro s' ⟨⟨hsound, hsame⟩, hconns, hset, hconn⟩
      exact ⟨hsound, .other hsame (fun b hb _ => ⟨hconns ▸ hb, hconn b⟩) hset
        fun a ev env h => by cases h⟩
  | ready a ev env =>
      have hnothing : Happens H s (.ready a ev env) s :=
        .other (.of_reqs rfl rfl rfl) (.refl s) rfl fun _ _ _ _ => rfl
      by_cases ha : a ∈ s.conns
      case neg =>
        rw [Server.step, if_neg fun h => ha h.1]
        exact ⟨hs, hnothing⟩
      cases hlisten : (s.conn a).listening with
      | false =>
          refine (hs.serve ha hlisten hcare).imp ?_
          rintro s' ⟨hsound, c', rfl, hc, hstep⟩
          refine ⟨hsound, ?_⟩
          rcases hstep with rfl | ⟨hclient, hev, hstep⟩
          · rwa [put_ctx]
          · exact .served ha hclient hev hstep hc
      | true =>
          refine (hs.step hcare).and_ensures ?_
          rw [Server.step]
          split
          case isFalse => exact hnothing
          rename_i hguard
          rw [eventHandler]
          by_cases hclosed : (s.conn a).state = .connClosed
          · rw [if_neg fun h => h.1 hclosed, handleClient_closed (c := s.ctx a) hclosed,
              ok_bind]
            change Happens H s _ (s.put a (s.ctx a))
            rwa [put_ctx]
          obtain rfl : ev = .read := Option.some.inj
            ((hguard.2.resolve_right hclosed).symm.trans (hs.poll a ha hlisten))
          rw [if_pos ⟨hclosed, hlisten, rfl⟩]
          rw [Careful, if_pos hlisten] at hcare
          have haccept := (hs.heard a (env.clock 0)).accept (cleanBlock_heard hcare a _) env
          have hinUse := accept_inUse (hs.heard a (env.clock 0)) env
          refine ((haccept.mono (F := fun _ => True) (fun _ h => h.2) fun _ _ => trivial).and
            hinUse).mono ?_ fun _ _ => trivial
          rintro s' ⟨hsame, hset, hinUse⟩
          refine .other ⟨hsame.cache, hsame.agree⟩ ?_ hset ?_
          · intro b hb hclient
            have hba : b ≠ a := fun h => by
              subst h
              simp [Conn.client, hlisten] at hclient
            have hheard : (s.modifyConn a fun conn =>
                { conn with lastHeard := env.clock 0 }).conn b = s.conn b :=
              modifyConn_of_ne hba _
            obtain ⟨hmem, hconn⟩ := hinUse b hb (by
              rw [hheard]
              exact (by simpa [Conn.client] using hclient : _ ∧ _).1)
            exact ⟨hmem, .inl (hconn.trans hheard)⟩
          · rintro a' ev' env' ⟨⟩
            have hfree : (s.conn a).free = false := by
              by_contra hfree
              exact hclosed (hs.idle a ha (by simpa using hfree)).1.state
            rw [(hinUse a ha (by rw [modifyConn_self]; exact hfree)).2, modifyConn_self]

/-! ## A single client -/

theorem not_growthRefused {h : Heap σ} {ht : Cache} (hA : H.alloc.NeverFails) :
    ¬ GrowthRefused H h ht q f := by
  rintro ⟨-, -, -, hfails⟩
  rw [growthFails_of_neverFails hA] at hfails
  cases hfails

theorem growsWell_of_neverFails (hA : H.alloc.NeverFails) : GrowsWell H c env :=
  fun _ _ _ _ _ => not_growthRefused hA

/-- No structure in the list but the one at `a` belongs to a client. -/
def Alone (s : State σ) (a : Addr) : Prop :=
  ∀ b ∈ s.conns, b ≠ a → Conn.client (s.conn b) = false

/-- The server while the client at `a` is the only one. -/
structure Solo (H : Host σ) (s : State σ) (a : Addr) : Prop where
  sound : Sound H s
  mem : a ∈ s.conns
  listening : (s.conn a).listening = false
  alone : Alone s a

theorem Solo.careful (hs : Solo H s a) (hA : H.alloc.NeverFails) (ev : Event) (env : Env) :
    Careful H s (.ready a ev env) := by
  cases ev with
  | write => trivial
  | read =>
      rw [Careful, if_neg (by simp [hs.listening])]
      intro hclient
      refine ⟨growsWell_of_neverFails hA, fun x _ _ b hb hba hother => ?_⟩
      rw [hs.alone b hb hba] at hother
      cases hother

theorem Alone.put (h : Alone s a) : Alone (s.put a c) a := fun b hb hba => by
  rw [put_conn_of_ne hba]
  exact h b hb hba

/-- The events of a single client. -/
theorem Solo.step (hs : Solo H s a) (hA : H.alloc.NeverFails) (ev : Event) (env : Env) :
    Post (Server.step H s (.ready a ev env))
      (fun s' => Solo H s' a ∧ ∃ c', s' = s.put a c' ∧
        (c' = s.ctx a ∨ Conn.client (s.conn a) = true ∧ (s.conn a).interest = some ev ∧
          ClientStep H (s.ctx a) ev env (s.reqsOf (s.others a))
            (s.bufsOf (s.others a)) ↑s.conns c')) StepFault := by
  refine (hs.sound.serve hs.mem hs.listening (hs.careful hA ev env)).imp
    fun s' ⟨hsound, c', hput, hc, hstep⟩ => ?_
  subst hput
  exact ⟨⟨hsound, hs.mem, by rwa [put_conn_self], hs.alone.put⟩, c', rfl, hstep⟩

/-- The sweep stops at once where no connection belongs to a client. -/
theorem sweep_stops {L : List Addr} (hL : ∀ b ∈ L, Conn.client (s.conn b) = false) (i : Nat)
    (env : Env) : disconnectIdleFrom H L i env s = .ok s := by
  cases L with
  | nil => rfl
  | cons b L =>
      have hb := hL b (List.mem_cons_self ..)
      rw [disconnectIdleFrom, if_pos]
      simpa [Conn.client, or_iff_not_imp_left] using hb

theorem Alone.sweep {L : List Addr} (h : Alone s a) (hL : ∀ b ∈ L, b ∈ s.conns) (i : Nat)
    (env : Env) : disconnectIdleFrom H L i env s = .ok s ∨ Conn.client (s.conn a) = true ∧
      disconnectIdleFrom H L i env s = disconnectConn H (s.ctx a) >>= fun c' =>
        .ok (s.put a c') := by
  induction L generalizing i with
  | nil => exact .inl rfl
  | cons b L ih =>
      rw [disconnectIdleFrom]
      split
      · exact .inl rfl
      · rename_i hstop
        have hb : Conn.client (s.conn b) = true := by simpa [Conn.client] using hstop
        obtain rfl : b = a := by
          by_contra hba
          rw [h b (hL b (List.mem_cons_self ..)) hba] at hb
          cases hb
        have hrest : ∀ b' ∈ L, b' ∈ s.conns := fun b' hb' => hL b' (List.mem_cons_of_mem _ hb')
        split
        · refine .inr ⟨hb, ?_⟩
          cases hrun : disconnectConn H (s.ctx b) with
          | error e => rfl
          | ok c' =>
              have hfree := (disconnectConn_effect (H := H)).of_ok hrun
              refine sweep_stops (fun b' hb' => ?_) _ _
              by_cases hne : b' = b
              · rw [hne, put_conn_self, Conn.client, hfree.free]
                rfl
              · rw [put_conn_of_ne hne]
                exact h b' (hrest b' hb') hne
        · exact ih hrest _

/-- A sweep closes the connection, or does nothing. -/
theorem Solo.sweep (hs : Solo H s a) (env : Env) :
    Server.step H s (.idle env) = .ok s ∨ ∃ c', Server.step H s (.idle env) = .ok (s.put a c') ∧
      Solo H (s.put a c') a ∧ c'.cache = s.cache ∧ Closed (s.conn a) c'.conn := by
  rcases Alone.sweep (H := H) hs.alone (fun _ h => h) 0 env with hsame | ⟨hclient, hclose⟩
  · exact .inl hsame
  · obtain ⟨c', hc', hsound, hb, hclosed⟩ := hs.sound.disconnect hs.mem hclient
    rw [hc', ok_bind] at hclose
    refine .inr ⟨c', hclose, ⟨hsound, hs.mem, ?_, hs.alone.put⟩, hb.cache, hclosed⟩
    rw [put_conn_self, hclosed.listening]
    exact hs.listening

/-- No one but the client at `a` connects or sends. -/
def Attends (a : Addr) : Input → Prop
  | .ready b _ _ => b = a
  | .idle _ => True

theorem Solo.cares (hs : Solo H s a) (hA : H.alloc.NeverFails) {i : Input}
    (hi : Attends a i) : Careful H s i := by
  cases i with
  | idle env => trivial
  | ready b ev env =>
      obtain rfl : b = a := hi
      exact hs.careful hA ev env

theorem Solo.attend (hs : Solo H s a) (hA : H.alloc.NeverFails) {i : Input}
    (hi : Attends a i) : Post (Server.step H s i) (fun s' => Solo H s' a) StepFault := by
  cases i with
  | ready b ev env =>
      obtain rfl : b = a := hi
      exact (hs.step hA ev env).imp fun _ h => h.1
  | idle env =>
      rcases hs.sweep env with hsame | ⟨c', hput, hsolo, -⟩
      · rw [hsame]
        exact hs
      · rw [hput]
        exact hsolo

/-- The inputs that are events on the connection at `a`. -/
def Concerns (a : Addr) : Input → Prop
  | .ready b _ _ => b = a
  | .idle _ => False

theorem Solo.meets {inputs : List Input} (hs : Solo H s a) (hA : H.alloc.NeverFails)
    (hfor : ∀ i ∈ inputs, Concerns a i) : Meets (Server.step H) (Careful H) s inputs := by
  induction inputs generalizing s with
  | nil => trivial
  | cons i inputs ih =>
      obtain ⟨hi, hrest⟩ := List.forall_mem_cons.mp hfor
      cases i with
      | idle env => exact hi.elim
      | ready b ev env =>
          obtain rfl : b = a := hi
          exact ⟨hs.careful hA ev env, fun s' hstep =>
            ih ((hs.step hA ev env).of_ok hstep).1 hrest⟩

theorem Solo.run {inputs : List Input} (hs : Solo H s a) (hA : H.alloc.NeverFails)
    (hfor : ∀ i ∈ inputs, Concerns a i) :
    Post (Foundation.run (Server.step H) s inputs) (fun s' => Solo H s' a) StepFault := by
  induction inputs generalizing s with
  | nil => exact hs
  | cons i inputs ih =>
      obtain ⟨hi, hrest⟩ := List.forall_mem_cons.mp hfor
      cases i with
      | idle env => exact hi.elim
      | ready b ev env =>
          obtain rfl : b = a := hi
          exact (hs.step hA ev env).bind fun s' hs' => ih hs'.1 hrest

/-- How the first client of a server that has just started got its connection. -/
theorem first_accepted {settings : Settings} {heap : Heap σ} {fd : Nat} {env₀ : Env}
    (hstart : start H settings heap fd env₀ = .ok (some s)) {l : Addr}
    (hrun : Server.step H s (.ready l .read env) = .ok s') (ha : a ∈ s'.conns)
    (hclient : Conn.client (s'.conn a) = true) :
    (s.conn l).listening = true ∧ ∃ fd s₁ c',
      Made H (s.modifyConn l fun conn => { conn with lastHeard := env.clock 0 }) fd env a s₁ ∧
      makeConn H (s.modifyConn l fun conn => { conn with lastHeard := env.clock 0 }) fd env =
        (some a, s₁) ∧
      setReadHeader H (s₁.ctx a) = .ok c' ∧ s' = s₁.put a c' := by
  obtain ⟨l', hconns, hlisten, hfree, hpoll, -⟩ := start_conns hstart
  have hnone : ∀ b ∈ s.conns, Conn.client (s.conn b) = false := by
    intro b hb
    obtain rfl : b = l' := List.mem_singleton.mp (hconns ▸ hb)
    simp [Conn.client, hlisten]
  have hnot : s' ≠ s := by
    rintro rfl
    rw [hnone a ha] at hclient
    cases hclient
  by_cases hl : l = l'
  case neg =>
    rw [Server.step, if_neg fun h => hl (List.mem_singleton.mp (hconns ▸ h.1))] at hrun
    exact absurd (Except.ok.inj hrun).symm hnot
  subst hl
  refine ⟨hlisten, ?_⟩
  have hheard : ∀ b ∈ s.conns, Conn.client ((s.modifyConn l fun conn =>
      { conn with lastHeard := env.clock 0 }).conn b) = false := by
    intro b hb
    rw [heard_conn]
    exact hnone b hb
  rw [Server.step, if_pos ⟨by simp [hconns], .inl hpoll⟩, eventHandler] at hrun
  split at hrun
  · rw [acceptConn] at hrun
    cases haccept : env.accept with
    | none =>
        rw [haccept] at hrun
        obtain rfl := Except.ok.inj hrun
        rw [hheard a ha] at hclient
        cases hclient
    | some fd =>
        have hmade := makeConn_effect H
          (s.modifyConn l fun conn => { conn with lastHeard := env.clock 0 }) fd env
        rw [haccept] at hrun
        dsimp only at hrun
        rcases hmake : makeConn H (s.modifyConn l fun conn =>
          { conn with lastHeard := env.clock 0 }) fd env with ⟨_ | new, s₁⟩
        · rw [hmake] at hrun hmade
          obtain rfl := Except.ok.inj hrun
          rw [hmade.2.1, hheard a (hmade.1 ▸ ha)] at hclient
          cases hclient
        · rw [hmake] at hrun hmade
          obtain ⟨c', hset, hput⟩ := ok_of_bind_eq_ok hrun
          obtain rfl := Except.ok.inj hput
          obtain rfl : a = new := by
            by_contra hne
            rw [put_conn_of_ne hne, hmade.other a hne, hheard a (hmade.mem ha hne)] at hclient
            cases hclient
          exact ⟨fd, s₁, c', hmade, hmake, hset, rfl⟩
  · rename_i hclosed
    have hstate : (s.conn l).state = .connClosed := by
      by_contra hopen
      exact hclosed ⟨hopen, hlisten, rfl⟩
    rw [handleClient_closed (c := s.ctx l) hstate, ok_bind] at hrun
    have hsame : s.put l (s.ctx l) = s' := Except.ok.inj hrun
    rw [put_ctx] at hsame
    exact absurd hsame.symm hnot

/-- The first client of a server that has just started. -/
theorem Solo.first {settings : Settings} {heap : Heap σ} {fd : Nat} {env₀ : Env}
    (hboot : Boot H heap) (hstart : start H settings heap fd env₀ = .ok (some s))
    (hclean : CleanBlock H s) {l : Addr}
    (hrun : Server.step H s (.ready l .read env) = .ok s') (ha : a ∈ s'.conns)
    (hclient : Conn.client (s'.conn a) = true) : Solo H s' a := by
  obtain ⟨hlisten, fd, s₁, c', hmade, -, -, rfl⟩ := first_accepted hstart hrun ha hclient
  obtain ⟨l', hconns, hlisten', -⟩ := start_conns hstart
  have hsound := ((sound_start hboot hstart).step (i := .ready l .read env) (by
    rw [Careful, if_pos hlisten]
    exact hclean)).of_ok hrun
  refine ⟨hsound, ha, by simpa [Conn.client] using (Bool.and_eq_true_iff.mp hclient).2,
    fun b hb hba => ?_⟩
  rw [put_conn_of_ne hba, hmade.other b hba, heard_conn]
  have hb' : b ∈ s.conns := hmade.mem hb hba
  obtain rfl : b = l' := List.mem_singleton.mp (hconns ▸ hb')
  simp [Conn.client, hlisten']

/-- The structure at `a` is in the list, and belongs to a client. -/
def hasClient (a : Addr) (s : State σ) : Bool :=
  s.conns.contains a && Conn.client (s.conn a)

/-- The first client connects, and no one else does. -/
theorem Solo.joined {settings : Settings} {heap : Heap σ} {fd : Nat} {env₀ : Env}
    (hboot : Boot H heap) (hstart : start H settings heap fd env₀ = .ok (some s))
    (hclean : CleanBlock H s) (hA : H.alloc.NeverFails) {l : Addr}
    (hjoin : returns (Server.step H s (.ready l .read env)) (hasClient a) = true)
    {inputs : List Input} (hfor : ∀ i ∈ inputs, Concerns a i) :
    Post (Foundation.run (Server.step H) s (.ready l .read env :: inputs))
      (fun s' => Solo H s' a) StepFault := by
  obtain ⟨s₁, hs₁, htest⟩ := exists_of_returns hjoin
  rw [hasClient, Bool.and_eq_true, List.contains_iff_mem] at htest
  rw [run_cons, hs₁, ok_bind]
  exact (Solo.first hboot hstart hclean hs₁ htest.1 htest.2).run hA hfor

theorem Solo.joined_meets {settings : Settings} {heap : Heap σ} {fd : Nat} {env₀ : Env}
    (hboot : Boot H heap) (hstart : start H settings heap fd env₀ = .ok (some s))
    (hclean : CleanBlock H s) (hA : H.alloc.NeverFails) {l : Addr}
    (hcare : Careful H s (.ready l .read env))
    (hjoin : returns (Server.step H s (.ready l .read env)) (hasClient a) = true)
    {inputs : List Input} (hfor : ∀ i ∈ inputs, Concerns a i) :
    Meets (Server.step H) (Careful H) s (.ready l .read env :: inputs) := by
  obtain ⟨s₁, hs₁, htest⟩ := exists_of_returns hjoin
  rw [hasClient, Bool.and_eq_true, List.contains_iff_mem] at htest
  refine ⟨hcare, fun s' hs' => ?_⟩
  obtain rfl := Except.ok.inj (hs₁.symm.trans hs')
  exact (Solo.first hboot hstart hclean hs₁ htest.1 htest.2).meets hA hfor

/-- A server on an empty memory, with its first client at address 4. -/
theorem solo_unlimited {inputs : List Input} {s : State (Finset ℕ)}
    (hstart : start (Host.lp64 Allocator.unlimited) ⟨0, 2⟩ (emptyHeap ∅) 3
      (hearing .eof) = .ok (some s)) (hfor : ∀ i ∈ inputs, Concerns 4 i) :
    Meets (Server.step (Host.lp64 Allocator.unlimited))
        (Careful (Host.lp64 Allocator.unlimited)) s (knock 1 :: inputs) ∧
      Post (Foundation.run (Server.step (Host.lp64 Allocator.unlimited)) s
        (knock 1 :: inputs)) (fun s' => Solo (Host.lp64 Allocator.unlimited) s' 4)
        StepFault := by
  have hjoin : returns (start (Host.lp64 Allocator.unlimited) ⟨0, 2⟩ (emptyHeap ∅) 3
      (hearing .eof)) (fun s => s.any fun s => (s.conn 1).listening &&
        returns (Server.step (Host.lp64 Allocator.unlimited) s (knock 1))
          (hasClient 4)) = true := by decide +kernel
  rw [hstart] at hjoin
  obtain ⟨hlisten, hjoin⟩ := Bool.and_eq_true_iff.mp hjoin
  have hclean : CleanBlock (Host.lp64 Allocator.unlimited) s := cleanBlock_of_clears rfl
  refine ⟨Solo.joined_meets (boot_emptyHeap rfl) hstart hclean
    Allocator.neverFails_unlimited ?_ hjoin hfor, Solo.joined (boot_emptyHeap rfl) hstart
      hclean Allocator.neverFails_unlimited hjoin hfor⟩
  rw [Careful, if_pos hlisten]
  exact hclean

theorem concerns_arrive (a : Addr) (bytes : Bytes) : ∀ i ∈ arrive a bytes, Concerns a i := by
  intro i hi
  obtain ⟨b, -, rfl⟩ := List.mem_map.mp hi
  exact rfl

theorem concerns_take (a : Addr) (n : Nat) : ∀ i ∈ Server.take a n, Concerns a i := by
  intro i hi
  rw [List.eq_of_mem_replicate hi]
  exact rfl

end Lightcache.Server
