import Lightcache.Server.Lifecycle

/-!
# The idle sweep

`disconnect_idle_conns` walks the connection list only up to the first structure
that is free or listening, and compares the timeout with the low 32 bits of the
idle time.  It does what it is for exactly when no connection that has been idle
for too long lies behind such a structure, and the low bits decide right for the
connections before it.
-/

namespace Lightcache.Server

open Lightcache Lightcache.Foundation Lightcache.Hashtab

variable {σ : Type} {H : Host σ} {s s' : State σ} {a b : Addr} {c c' : Ctx σ}
  {L : List Addr} {env : Env} {i k : Nat} {age : Int} {timeout : Nat}

/-- The low 32 bits of the age exceed the timeout if and only if the age does. -/
def Faithful (age : Int) (timeout : Nat) : Prop :=
  0 ≤ age ∧ age < 2 ^ 32 ∨ age < 0 ∧ uint32 age ≤ timeout ∨
    2 ^ 32 ≤ age ∧ (timeout < uint32 age ∨ age ≤ timeout)

theorem faithful_iff :
    Faithful age timeout ↔ (timeout < uint32 age ↔ (timeout : Int) < age) := by
  simp only [Faithful, uint32]
  omega

/-- `disconnect_conn` has been called for the structure. -/
def GivenUp (conn : Conn) : Prop := Idle conn ∧ conn.interest = none

/-- The time since the connection was last heard, at the `i`-th reading of the clock. -/
def idleTime (s : State σ) (env : Env) (i : Nat) (a : Addr) : Int :=
  env.clock i - (s.conn a).lastHeard

/-- The connection has been idle for longer than the timeout. -/
def TooIdle (s : State σ) (env : Env) (i : Nat) (a : Addr) : Prop :=
  (s.settings.idleConnTimeout : Int) < idleTime s env i a

/-- The test of the sweep, with the `i`-th reading of the clock. -/
def Overdue (s : State σ) (env : Env) (i : Nat) (a : Addr) : Prop :=
  uint32 (idleTime s env i a) > s.settings.idleConnTimeout

/-- The walk along `L` comes to its element `k`. -/
def Visits (s : State σ) (L : List Addr) (k : Nat) : Prop :=
  ∀ j a, j ≤ k → L[j]? = some a → Conn.client (s.conn a) = true

theorem visits_cons (hk : Visits s (a :: L) (k + 1)) : Visits s L k :=
  fun j b hj hb => hk (j + 1) b (Nat.succ_le_succ hj) hb

theorem visits_zero (ha : Conn.client (s.conn a) = true) : Visits s (a :: L) 0 := by
  intro j b hj hb
  obtain rfl := Nat.le_zero.mp hj
  obtain rfl : a = b := Option.some.inj hb
  exact ha

theorem visits_succ (ha : Conn.client (s.conn a) = true) (hk : Visits s L k) :
    Visits s (a :: L) (k + 1) := by
  intro j b hj hb
  cases j with
  | zero =>
      obtain rfl : a = b := Option.some.inj hb
      exact ha
  | succ j => exact hk j b (Nat.le_of_succ_le_succ hj) hb

theorem visits_put (ha : a ∉ L) : Visits (s.put a c) L k ↔ Visits s L k := by
  have hsame : ∀ {j b}, L[j]? = some b → (s.put a c).conn b = s.conn b := fun hb =>
    put_conn_of_ne fun hba => ha (hba ▸ List.mem_of_getElem? hb)
  constructor
  · intro h j b hj hb
    rw [← hsame hb]
    exact h j b hj hb
  · intro h j b hj hb
    rw [hsame hb]
    exact h j b hj hb

theorem freeRequest_settings :
    Ensures (freeRequest H c) fun c' => c'.settings = c.settings := by
  refine freeRequest_effect.imp ?_
  rintro _ ⟨heap, p, rfl⟩
  exact rfl

theorem freeResponse_settings :
    Ensures (freeResponse H c) fun c' => c'.settings = c.settings := by
  refine freeResponse_effect.imp ?_
  rintro _ ⟨heap, rfl⟩
  exact rfl

theorem disconnectConn_settings :
    Ensures (disconnectConn H c) fun c' => c'.settings = c.settings :=
  freeRequest_settings.bind fun _ h₁ => freeResponse_settings.bind fun _ h₂ => h₂.trans h₁

theorem overdue_put (hb : b ≠ a) (hset : c.settings = s.settings) :
    Overdue (s.put a c) env i b ↔ Overdue s env i b := by
  rw [Overdue, Overdue, idleTime, idleTime, put_conn_of_ne hb]
  change _ > c.settings.idleConnTimeout ↔ _
  rw [hset]

/-- Only a connection that the walk comes to and finds overdue is given up. -/
theorem sweep_closes :
    Ensures (disconnectIdleFrom H L i env s) fun s' => ∀ b, s'.conn b ≠ s.conn b →
      ∃ k, L[k]? = some b ∧ Visits s L k ∧ Overdue s env (i + k) b := by
  induction L generalizing s i with
  | nil => exact fun b hb => absurd rfl hb
  | cons a L ih =>
      rw [disconnectIdleFrom]
      split
      · exact fun b hb => absurd rfl hb
      rename_i hgo
      have hclient : Conn.client (s.conn a) = true := by simpa [Conn.client] using hgo
      have hindex : ∀ k, i + (k + 1) = i + 1 + k := fun k => by omega
      split
      · -- the walk goes on behind a structure that is free now
        rename_i hover
        refine (disconnectConn_effect.and disconnectConn_settings).bind
          fun c' hc' => (ih (s := s.put a c')).imp fun s' hs' b hb => ?_
        by_cases hba : b = a
        · subst hba
          exact ⟨0, rfl, visits_zero hclient, hover⟩
        obtain ⟨k, hk, hvisit, hbover⟩ := hs' b (by rwa [put_conn_of_ne hba])
        refine ⟨k + 1, hk, visits_succ hclient fun j x hj hx => ?_, ?_⟩
        · have hx := hvisit j x hj hx
          rwa [put_conn_of_ne] at hx
          rintro rfl
          simp [Conn.client, hc'.1.free] at hx
        · rwa [hindex, ← overdue_put hba hc'.2]
      · refine ih.imp fun s' hs' b hb => ?_
        obtain ⟨k, hk, hvisit, hbover⟩ := hs' b hb
        exact ⟨k + 1, hk, visits_succ hclient hvisit, by rwa [hindex]⟩

/-- An overdue connection that the walk comes to is given up. -/
theorem sweep_reaches (hL : L.Nodup) :
    Ensures (disconnectIdleFrom H L i env s) fun s' => ∀ k b, L[k]? = some b →
      Visits s L k → Overdue s env (i + k) b → GivenUp (s'.conn b) := by
  induction L generalizing s i with
  | nil => exact fun k b hb => by simp at hb
  | cons a L ih =>
      obtain ⟨ha, hL⟩ := List.nodup_cons.mp hL
      rw [disconnectIdleFrom]
      split
      · rename_i hstop
        intro k b hb hvisit
        have := hvisit 0 a (Nat.zero_le _) rfl
        simp only [Conn.client, Bool.and_eq_true, Bool.not_eq_true'] at this
        rcases hstop with hstop | hstop <;> simp [this] at hstop
      have hindex : ∀ k, i + (k + 1) = i + 1 + k := fun k => by omega
      split
      · refine (disconnectConn_effect.and disconnectConn_settings).bind
          fun c' hc' => ((ih (s := s.put a c') hL).and sweep_closes).imp fun s' hs' k b hb
            hvisit hbover => ?_
        cases k with
        | zero =>
            obtain rfl : a = b := Option.some.inj hb
            have hkept : s'.conn a = (s.put a c').conn a := by
              by_contra hne
              obtain ⟨k, hk, -⟩ := hs'.2 a hne
              exact ha (List.mem_of_getElem? hk)
            rw [hkept, put_conn_self]
            exact ⟨⟨hc'.1.free, hc'.1.state, hc'.1.sdata⟩, hc'.1.interest⟩
        | succ k =>
            have hba : b ≠ a := fun h => ha (h ▸ List.mem_of_getElem? hb)
            refine hs'.1 k b hb ((visits_put ha).mpr (visits_cons hvisit)) ?_
            rwa [overdue_put hba hc'.2, ← hindex]
      · rename_i hover
        refine (ih hL).imp fun s' hs' k b hb hvisit hbover => ?_
        cases k with
        | zero =>
            obtain rfl : a = b := Option.some.inj hb
            exact absurd hbover hover
        | succ k =>
            refine hs' k b hb (visits_cons hvisit) ?_
            rwa [← hindex]

/-- What the sweep is for. -/
structure Swept (s s' : State σ) (env : Env) : Prop where
  idle : ∀ i a, s.conns[i]? = some a → Conn.client (s.conn a) = true →
    TooIdle s env i a → GivenUp (s'.conn a)
  others : ∀ i a, s.conns[i]? = some a →
    ¬ (Conn.client (s.conn a) = true ∧ TooIdle s env i a) → s'.conn a = s.conn a

/-- What the connections of the list must be for the sweep to get them all right. -/
structure Sweepable (s : State σ) (env : Env) : Prop where
  /-- A connection that has been idle for too long is not behind a structure that stops the walk. -/
  reached : ∀ i j a b, i < j → s.conns[i]? = some a → s.conns[j]? = some b →
    (s.conn a).free = true ∨ (s.conn a).listening = true →
      ¬ (Conn.client (s.conn b) = true ∧ TooIdle s env j b)
  /-- The idle times that the walk looks at survive the loss of their high bits. -/
  faithful : ∀ i a, s.conns[i]? = some a → Visits s s.conns i →
    Faithful (idleTime s env i a) s.settings.idleConnTimeout

theorem faithful_overdue {s : State σ} :
    Faithful (idleTime s env i a) s.settings.idleConnTimeout ↔
      (Overdue s env i a ↔ TooIdle s env i a) := faithful_iff

theorem Sweepable.visits (h : Sweepable s env) (ha : s.conns[i]? = some a)
    (hclient : Conn.client (s.conn a) = true) (hidle : TooIdle s env i a) :
    Visits s s.conns i := by
  intro j b hj hb
  by_contra hstop
  rcases Nat.lt_or_eq_of_le hj with hlt | rfl
  · refine h.reached j i b a hlt hb ha ?_ ⟨hclient, hidle⟩
    by_contra hopen
    obtain ⟨hfree, hlisten⟩ := not_or.mp hopen
    exact hstop (by simp [Conn.client, hfree, hlisten])
  · obtain rfl : a = b := Option.some.inj (ha.symm.trans hb)
    exact hstop hclient

/-- A connection that has been given up does not belong to a client any more. -/
theorem GivenUp.ne (h : GivenUp (s'.conn a)) (hclient : Conn.client (s.conn a) = true) :
    s'.conn a ≠ s.conn a := by
  intro hsame
  rw [hsame] at h
  simp [Conn.client, h.1.free] at hclient

/-- The sweep does what it is for exactly when the list allows it. -/
theorem sweep_exact_iff (hnodup : s.conns.Nodup) (env : Env) :
    Ensures (disconnectIdleConns H s env) (fun s' => Swept s s' env ↔ Sweepable s env) ∧
      (Sound H s → ∃ s', disconnectIdleConns H s env = .ok s') := by
  have hat : ∀ {i j a}, s.conns[i]? = some a → s.conns[j]? = some a → j = i :=
    fun hi hj => (List.getElem?_inj (List.getElem?_eq_some_iff.mp hj).1 hnodup).mp
      (hj.trans hi.symm)
  refine ⟨((sweep_reaches hnodup).and sweep_closes).imp fun s' ⟨hreaches, hcloses⟩ =>
    ⟨fun hswept => ⟨fun i j a b hij ha hb hstop hidle => ?_, fun i a ha hvisit => ?_⟩,
      fun h => ⟨fun i a ha hclient hidle => ?_, fun i a ha hnot => ?_⟩⟩, fun hs => ?_⟩
  · -- the walk does not come to `b`
    obtain ⟨k, hk, hvisit, -⟩ := hcloses b
      ((hswept.idle j b hb hidle.1 hidle.2).ne hidle.1)
    obtain rfl := hat hb hk
    have := hvisit i a hij.le ha
    simp only [Conn.client, Bool.and_eq_true, Bool.not_eq_true'] at this
    rcases hstop with hstop | hstop <;> simp [this] at hstop
  · have hclient := hvisit i a le_rfl ha
    refine faithful_overdue.mpr ⟨fun hover => ?_, fun hidle => ?_⟩
    · by_contra hnot
      exact (hreaches i a ha hvisit (by rwa [Nat.zero_add])).ne hclient
        (hswept.others i a ha fun h => hnot h.2)
    · obtain ⟨k, hk, -, hover⟩ := hcloses a ((hswept.idle i a ha hclient hidle).ne hclient)
      obtain rfl := hat ha hk
      rwa [Nat.zero_add] at hover
  · have hvisit := h.visits ha hclient hidle
    refine hreaches i a ha hvisit ?_
    rw [Nat.zero_add]
    exact (faithful_overdue.mp (h.faithful i a ha hvisit)).mpr hidle
  · by_contra hne
    obtain ⟨k, hk, hvisit, hover⟩ := hcloses a hne
    obtain rfl := hat ha hk
    rw [Nat.zero_add] at hover
    exact hnot ⟨hvisit k a le_rfl ha, (faithful_overdue.mp (h.faithful k a ha hvisit)).mp hover⟩
  · obtain ⟨s', hs', -⟩ := (hs.sweep (fun _ h => h) 0 env).exists_ok
    exact ⟨s', hs'⟩

/-- Ninety-nine seconds after two clients have connected. -/
def later : Env := ⟨fun _ => 99, 1, none, .wouldBlock, .sent⟩

/-- Two clients are connected, and both have been idle for too long. -/
theorem sweep_exact_iff_two :
    ∃ s, start (Host.lp64 Allocator.unlimited) ⟨0, 2⟩ (emptyHeap ∅) 3
        (hearing .eof) = .ok (some s) ∧
      ∃ s', run (step (Host.lp64 Allocator.unlimited)) s [knock 1, knock 1] = .ok s' ∧
        Ensures (disconnectIdleConns (Host.lp64 Allocator.unlimited) s' later)
            (fun s'' => Swept s' s'' later ↔ Sweepable s' later) ∧
          (Sound (Host.lp64 Allocator.unlimited) s' → ∃ s'',
            disconnectIdleConns (Host.lp64 Allocator.unlimited) s' later = .ok s'') :=
  ⟨_, rfl, _, rfl, sweep_exact_iff (by decide) later⟩

/-- Two clients connect, and the second one, at the head of the list, goes away. -/
def secondLeaves : List Input := [knock 1, knock 1, .ready 6 .read (hearing .eof)]

instance (s : State σ) (env : Env) (i : Nat) (a : Addr) : Decidable (TooIdle s env i a) :=
  inferInstanceAs (Decidable ((s.settings.idleConnTimeout : Int) < idleTime s env i a))

/-- Whether the second structure of the list has been idle for too long, and outlives the sweep. -/
def outlives (a : Addr) (s s' : State σ) : Bool :=
  s.conns[1]? == some a && Conn.client (s.conn a) && decide (TooIdle s later 1 a) &&
    !(s'.conn a).free

theorem sweep_stops_early :
    ∃ s, start (Host.lp64 Allocator.recycling) ⟨0, 2⟩ (emptyHeap ∅) 3
        (hearing .eof) = .ok (some s) ∧
      ∃ s', run (step (Host.lp64 Allocator.recycling)) s secondLeaves = .ok s' ∧
        ∃ s'', disconnectIdleConns (Host.lp64 Allocator.recycling) s' later = .ok s'' ∧
          ¬ Swept s' s'' later := by
  refine ⟨_, rfl, Exists.imp (fun s' hs' => ⟨hs'.1, Exists.imp (fun s'' hs'' =>
    ⟨hs''.1, fun hswept => ?_⟩) (exists_of_returns hs'.2)⟩)
    (exists_of_returns (p := fun s' => returns (disconnectIdleConns _ s' later)
      (outlives 4 s')) ?_)⟩
  · have htest := hs''.2
    simp only [outlives, Bool.and_eq_true, beq_iff_eq, decide_eq_true_eq,
      Bool.not_eq_true'] at htest
    obtain ⟨⟨⟨hmem, hclient⟩, hidle⟩, hfree⟩ := htest
    have hgone := hswept.idle 1 4 hmem hclient hidle
    rw [hgone.1.free] at hfree
    cases hfree
  · decide +kernel

end Lightcache.Server
