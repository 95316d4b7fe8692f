import Lightcache.Server.Session

/-!
# One client after another

Clients that connect one at a time always find the server as a single client
does, whatever those before them have done and wherever they left off.
-/

namespace Lightcache.Server

open Lightcache Lightcache.Foundation Lightcache.Hashtab Heap

variable {σ : Type} {H : Host σ} {s s' : State σ} {a b l : Addr} {c' : Ctx σ} {env : Env}
  {i : Input}

/-- Nobody connects while a client is connected. -/
def InTurn (s : State σ) : Input → Prop
  | .ready l .read env => (s.conn l).listening = true → env.accept ≠ none →
      ∀ b ∈ s.conns, Conn.client (s.conn b) = false
  | _ => True

/-- The server between two events, while its clients come one after another. -/
structure Serial (H : Host σ) (s : State σ) : Prop where
  sound : Sound H s
  keyed : s.cache.AllKeyed
  alone : ∀ a ∈ s.conns, Conn.client (s.conn a) = true → Alone s a
  stage : ∀ a ∈ s.conns, Conn.client (s.conn a) = true → Stage s.heap (s.conn a)
  clean : (∀ b ∈ s.conns, Conn.client (s.conn b) = false) → CleanBlock H s

/-- A client that has just connected. -/
structure Entered (s : State σ) (a : Addr) : Prop where
  rested : Rested s.heap (s.conn a)
  trace : (s.conn a).trace = ⟨0, [], []⟩

theorem Serial.session (hs : Serial H s) (ha : a ∈ s.conns)
    (hclient : Conn.client (s.conn a) = true) : Session H s a :=
  ⟨⟨hs.sound, ha, (by simpa [Conn.client] using hclient : _ ∧ _).2, hs.alone a ha hclient⟩,
    hs.keyed, hs.stage a ha hclient⟩

/-- The structure of a client that has left is there for the next one. -/
theorem Session.serial (hs : Session H s a) : Serial H s := by
  have honly : ∀ b ∈ s.conns, Conn.client (s.conn b) = true → b = a := fun b hb hclient => by
    by_contra hba
    rw [hs.solo.alone b hb hba] at hclient
    cases hclient
  refine ⟨hs.solo.sound, hs.keyed, fun b hb hclient => ?_, fun b hb hclient => ?_, fun hnone => ?_⟩
  · rw [honly b hb hclient]
    exact hs.solo.alone
  · rw [honly b hb hclient]
    exact hs.stage
  · intro b mem hfind
    have hfree : (s.conn a).free = true := by
      simpa [Conn.client, hs.solo.listening] using hnone a hs.solo.mem
    exact absurd hfree (List.find?_eq_none.mp hfind a hs.solo.mem)

/-- A server without a client, once the poller has reported its listening socket. -/
theorem Serial.heard (hs : Serial H s) (hlisten : (s.conn l).listening = true) (t : Int) :
    Serial H (s.modifyConn l fun conn => { conn with lastHeard := t }) := by
  have hsame : ∀ b, Conn.client ((s.modifyConn l fun conn =>
      { conn with lastHeard := t }).conn b) = Conn.client (s.conn b) := fun b => by
    rw [heard_conn]
    rfl
  refine ⟨hs.sound.heard l t, hs.keyed, fun a ha hclient b hb hba => ?_,
    fun a ha hclient => ?_, fun hnone => cleanBlock_heard (hs.clean fun b hb => ?_) l t⟩
  · rw [hsame] at hclient ⊢
    exact hs.alone a ha hclient b hb hba
  · rw [hsame] at hclient
    have hal : a ≠ l := fun h => by
      rw [h] at hclient
      simp [Conn.client, hlisten] at hclient
    rw [modifyConn_of_ne hal]
    exact hs.stage a ha hclient
  · rw [← hsame]
    exact hnone b hb

theorem makeConn_ne_none {fd : Nat} (hA : H.alloc.NeverFails) :
    makeConn H s fd env ≠ (none, s') := by
  intro h
  rw [makeConn] at h
  split at h
  · cases h
  · split at h
    · rename_i hm
      exact absurd hm (liMalloc_ne_none hA (by decide))
    · cases h

/-- The client that gets the structure `b`. -/
theorem Serial.made {fd : Nat} {s₁ : State σ} (hs : Serial H s)
    (hnone : ∀ b ∈ s.conns, Conn.client (s.conn b) = false) (hmade : Made H s fd env b s₁)
    (hset : setReadHeader H (s₁.ctx b) = .ok c') (hsound : Sound H (s₁.put b c'))
    (hsame : Undisturbed s (s₁.put b c')) :
    Session H (s₁.put b c') b ∧ (Conn.client c'.conn = true → Entered (s₁.put b c') b) := by
  obtain ⟨hfree, hlisten⟩ := hmade.open
  have hempty : (s₁.conn b).trace = ⟨0, [], []⟩ := by
    rcases hmade.self with h | h
    · exact congrArg Conn.trace h
    · exact congrArg Conn.trace h
  have hmem : b ∈ s₁.conns := by
    rcases hmade.conns with ⟨hconns, hb, -⟩ | ⟨hconns, -⟩
    · exact hconns ▸ hb
    · exact hconns ▸ List.mem_cons_self ..
  have halone : Alone (s₁.put b c') b := fun a ha hab => by
    rw [put_conn_of_ne hab, hmade.other a hab]
    exact hnone a (hmade.mem ha hab)
  have heffect := setReadHeader_effect.of_ok hset
  have hlistening : c'.conn.listening = false := by
    rcases heffect with h | h
    · exact h.listening.trans hlisten
    · exact h.listening.trans hlisten
  have hentered : c'.conn.free = false → Entered (s₁.put b c') b := fun hopen => by
    obtain ⟨hrested, -, htrace⟩ := rested_of_entered hset hopen
    refine ⟨by rw [put_conn_self]; exact hrested, ?_⟩
    rw [put_conn_self, htrace]
    exact hempty
  refine ⟨⟨⟨hsound, hmem, by rwa [put_conn_self], halone⟩, ?_, ?_⟩, fun hclient => ?_⟩
  · rw [hsame.cache]
    exact hs.keyed
  · rcases heffect with h | h
    · exact (hentered (h.free.trans hfree)).rested.stage
    · exact .closed (by rw [put_conn_self]; exact h.state)
  · exact hentered (by simpa [Conn.client, hlistening] using hclient)

/-- A client is accepted, or nothing happens. -/
theorem Serial.accept (hs : Serial H s) (hA : H.alloc.NeverFails)
    (hnone : ∀ b ∈ s.conns, Conn.client (s.conn b) = false) (env : Env) :
    Post (acceptConn H s env) (fun s' => Serial H s' ∧
      ∀ a ∈ s'.conns, Conn.client (s'.conn a) = true → Entered s' a) fun _ => False := by
  have hpost := hs.sound.accept (hs.clean hnone) env
  have hstays : ∀ a ∈ s.conns, Conn.client (s.conn a) = true → Entered s a :=
    fun a ha hclient => by
      rw [hnone a ha] at hclient
      cases hclient
  rw [acceptConn] at hpost ⊢
  cases haccept : env.accept with
  | none => exact ⟨hs, hstays⟩
  | some fd =>
      have hmade := makeConn_effect H s fd env
      rw [haccept] at hpost
      dsimp only at hpost ⊢
      rcases hmake : makeConn H s fd env with ⟨_ | b, s₁⟩
      · exact absurd hmake (makeConn_ne_none hA)
      · rw [hmake] at hpost hmade
        dsimp only at hpost ⊢
        cases hset : setReadHeader H (s₁.ctx b) with
        | error e =>
            rw [hset] at hpost
            exact hpost
        | ok c' =>
            rw [hset] at hpost
            obtain ⟨hsound, hsame⟩ := hpost
            obtain ⟨hsession, hentered⟩ := hs.made hnone hmade hset hsound hsame
            refine ⟨hsession.serial, fun a ha hclient => ?_⟩
            obtain rfl : a = b := by
              by_contra hab
              rw [hsession.solo.alone a ha hab] at hclient
              cases hclient
            rw [put_conn_self] at hclient
            exact hentered hclient

/-- An event that is not for a client: whoever is a client afterwards has been one, or enters. -/
theorem Serial.knock (hs : Serial H s) (hA : H.alloc.NeverFails) {ev : Event}
    (hl : l ∈ s.conns → Conn.client (s.conn l) = false) (hturn : InTurn s (.ready l ev env)) :
    Post (Server.step H s (.ready l ev env)) (fun s' => Serial H s' ∧
      ∀ a ∈ s'.conns, Conn.client (s'.conn a) = true →
        (a ∈ s.conns ∧ Conn.client (s.conn a) = true) ∨ Entered s' a) fun _ => False := by
  rw [Server.step]
  split
  case isFalse => exact ⟨hs, fun a ha hclient => .inl ⟨ha, hclient⟩⟩
  rename_i hguard
  obtain ⟨hmem, hev⟩ := hguard
  by_cases hclosed : (s.conn l).state = .connClosed
  · rw [eventHandler, if_neg fun h => h.1 hclosed,
      handleClient_closed (c := s.ctx l) hclosed, ok_bind]
    change Serial H (s.put l (s.ctx l)) ∧ ∀ a ∈ (s.put l (s.ctx l)).conns, _
    rw [put_ctx]
    exact ⟨hs, fun a ha hclient => .inl ⟨ha, hclient⟩⟩
  have hlisten : (s.conn l).listening = true := by
    by_contra hlisten
    refine hclosed (hs.sound.idle l hmem ?_).1.state
    simpa [Conn.client, hlisten] using hl hmem
  obtain rfl : ev = .read := Option.some.inj
    ((hev.resolve_right hclosed).symm.trans (hs.sound.poll l hmem hlisten))
  rw [eventHandler, if_pos ⟨hclosed, hlisten, rfl⟩]
  have hheard := hs.heard hlisten (env.clock 0)
  have hsame : ∀ b, Conn.client ((s.modifyConn l fun conn =>
      { conn with lastHeard := env.clock 0 }).conn b) = Conn.client (s.conn b) := fun b => by
    rw [heard_conn]
    rfl
  cases haccept : env.accept with
  | none =>
      rw [acceptConn, haccept]
      exact ⟨hheard, fun a ha hclient => .inl ⟨ha, (hsame a).symm.trans hclient⟩⟩
  | some fd =>
      have hnone := hturn hlisten (by simp [haccept])
      exact (hheard.accept hA (fun b hb => (hsame b).trans (hnone b hb)) env).imp
        fun s' h => ⟨h.1, fun a ha hclient => .inr (h.2 a ha hclient)⟩

/-- One input, whoever it is for. -/
theorem Serial.step (hs : Serial H s) (hA : H.alloc.NeverFails) (hturn : InTurn s i)
    (hread : ¬ ReadFails i) (hcarries : Carries H s i) :
    Post (Server.step H s i) (Serial H) fun _ => False := by
  cases i with
  | idle env =>
      by_cases hclients : ∃ a ∈ s.conns, Conn.client (s.conn a) = true
      · obtain ⟨a, ha, hclient⟩ := hclients
        exact ((hs.session ha hclient).attend hA (i := .idle env) trivial hread hcarries).imp
          fun s' h => h.serial
      · rw [Server.step, disconnectIdleConns,
          sweep_stops fun b hb => by simpa using fun h => hclients ⟨b, hb, h⟩]
        exact hs
  | ready l ev env =>
      by_cases hclient : l ∈ s.conns ∧ Conn.client (s.conn l) = true
      · exact ((hs.session hclient.1 hclient.2).attend hA (i := .ready l ev env) rfl hread
          hcarries).imp fun s' h => h.serial
      · exact (hs.knock hA (fun hl => by simpa using fun h => hclient ⟨hl, h⟩) hturn).imp
          fun s' h => h.1

/-! ## Reachable states -/

theorem serial_start {settings : Settings} {heap : Heap σ} {fd : Nat} (hboot : Boot H heap)
    (hstart : start H settings heap fd env = .ok (some s)) (hclean : CleanBlock H s) :
    Serial H s := by
  obtain ⟨l, hconns, hlisten, -⟩ := start_conns hstart
  obtain ⟨b, mem, mem', cache, -, hfresh, -, hs⟩ := start_fresh hboot hstart
  obtain rfl : s.cache = cache := by rw [hs]
  have hnone : ∀ a ∈ s.conns, Conn.client (s.conn a) = false := fun a ha => by
    obtain rfl : a = l := List.mem_singleton.mp (hconns ▸ ha)
    simp [Conn.client, hlisten]
  refine ⟨sound_start hboot hstart, hfresh.allKeyed, fun a ha hclient => ?_,
    fun a ha hclient => ?_, fun _ => hclean⟩
  all_goals
    rw [hnone a ha] at hclient
    cases hclient

/--
What a server that has started can come to: its clients come one after another,
no read fails, and no command uses a field that it does not carry.
-/
inductive Reached (H : Host σ) : State σ → Prop
  | start {settings : Settings} {heap : Heap σ} {fd : Nat} {env : Env} {s : State σ}
      (boot : Boot H heap) (start : Server.start H settings heap fd env = .ok (some s))
      (clean : CleanBlock H s) : Reached H s
  | step {s s' : State σ} {i : Input} (reached : Reached H s) (turn : InTurn s i)
      (reads : ¬ ReadFails i) (carries : Carries H s i)
      (step : Server.step H s i = .ok s') : Reached H s'

theorem Reached.serial (h : Reached H s) (hA : H.alloc.NeverFails) : Serial H s := by
  induction h with
  | start boot start clean => exact serial_start boot start clean
  | step reached turn reads carries step ih => exact (ih.step hA turn reads carries).of_ok step

/-- The client at `a` connects to a server without clients. -/
structure Connects (H : Host σ) (s : State σ) (a : Addr) (s' : State σ) : Prop where
  empty : ∀ b ∈ s.conns, Conn.client (s.conn b) = false
  accepts : ∃ l env, Server.step H s (.ready l .read env) = .ok s'
  mem : a ∈ s'.conns
  client : Conn.client (s'.conn a) = true

theorem Connects.enters (h : Connects H s a s') (hs : Serial H s) (hA : H.alloc.NeverFails) :
    Session H s' a ∧ Entered s' a := by
  obtain ⟨l, env, hstep⟩ := h.accepts
  obtain ⟨hserial, hcases⟩ :=
    (hs.knock hA (h.empty l) (show InTurn s (.ready l .read env) from fun _ _ => h.empty)).of_ok
      hstep
  refine ⟨hserial.session h.mem h.client, (hcases a h.mem h.client).resolve_left fun hold => ?_⟩
  rw [h.empty a hold.1] at hold
  cases hold.2

end Lightcache.Server
