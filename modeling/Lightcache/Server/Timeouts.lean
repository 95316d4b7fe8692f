import Lightcache.Server.Dispatch
import Lightcache.Server.Sweep

/-!
# The two timeouts

GET and `disconnect_idle_conns` compare a 64-bit timeout with the low 32 bits of
the time that has passed.  This is the comparison of the two numbers for every
age below `2 ^ 32`, and for few of the others.
-/

namespace Lightcache.Server

open Lightcache Lightcache.Foundation Lightcache.Hashtab

variable {σ : Type} {H : Host σ} {s s' : State σ} {a : Addr} {c c' : Ctx σ} {q : Addr}
  {r cached : Request} {env : Env} {i : Input} {age : Int} {timeout : Nat}

/-- The low 32 bits exceed the timeout only if the age does. -/
theorem early_iff : ¬ (timeout < uint32 age ∧ age ≤ timeout) ↔
    0 ≤ age ∨ uint32 age ≤ timeout := by
  simp only [uint32]
  omega

/-! ## GET -/

/-- The GET `r` comes across the request `cached` at `q`. -/
def Finds (c : Ctx σ) (r : Request) (q : Addr) (cached : Request) (timeout : Nat) : Prop :=
  ∃ key ref it extra, c.heap.load r.rkey = .ok key ∧
    hget c.cache key r.keyLength = .ok (some ref) ∧ itemAt c.cache ref = .ok it ∧
    it.val = some q ∧ c.heap.readRequest q = .ok cached ∧
    c.heap.load cached.rextra = .ok extra ∧ atoull extra = .ok (some timeout)

/-- The command has been answered with KEY_NOTEXISTS, and the request is gone. -/
def Forgets (heap : Heap σ) (conn : Conn) (q : Addr) : Prop :=
  conn.out.retcode = Code.keyNotexists.toByte ∧ heap.reqs q = none

theorem liFree_reqs {h : Heap σ} {p : Option Addr} :
    Ensures (h.liFree H p) fun h' => ∀ q, h.reqs q = none ∨ p = some q → h'.reqs q = none := by
  cases p with
  | none => exact fun q hq => hq.resolve_right nofun
  | some b =>
      refine (ensures_true _).bind fun mem _ q hq => ?_
      change Function.update h.reqs b none q = none
      by_cases hb : q = b
      · rw [hb, Function.update_self]
      · rw [Function.update_of_ne hb]
        exact hq.resolve_right fun h => hb (Option.some.inj h).symm

theorem releaseRequest_reqs {h : Heap σ} :
    Ensures (h.releaseRequest H q) fun h' => h'.reqs q = none :=
  (ensures_true _).bind fun _ _ => (ensures_true _).bind fun _ _ =>
    (ensures_true _).bind fun _ _ => (ensures_true _).bind fun _ _ =>
      liFree_reqs.imp fun _ h => h q (.inr rfl)

theorem addResponse_queued (data : Option Addr) (n : Nat) (code : Code) :
    Ensures (addResponse c data n code) fun c' =>
      c'.conn.out.retcode = code.toByte ∧ c'.heap = c.heap :=
  (ensures_true _).bind fun _ _ => ⟨rfl, rfl⟩

theorem evict_forgets {ref : ItemRef} {it : HItem (Option Addr)}
    (hit : itemAt c.cache ref = .ok it) (hval : it.val = some q) :
    Ensures (evict H c ref) fun c' => c'.heap.reqs q = none := by
  rw [evict, delItem, hit, ok_bind, hval]
  refine Ensures.bind (P := fun c₁ => c₁.heap.reqs q = none) ?_ fun _ h => ensures_ok.mpr h
  exact (releaseRequest_reqs (q := q)).bind fun _ h => ensures_ok.mpr h

/-- The test of the code, on the age of the entry. -/
theorem getItem_forgets (h : Finds c r q cached timeout) :
    Ensures (getItem H c r) fun c' =>
      Forgets c'.heap c'.conn q ↔ timeout < uint32 (r.received - cached.received) := by
  obtain ⟨key, ref, it, extra, hkey, hfound, hit, hval, hcached, hextra, htimeout⟩ := h
  rw [getItem, hkey, ok_bind, hfound, ok_bind]
  dsimp only
  rw [hit, ok_bind, hval]
  dsimp only
  rw [hcached, ok_bind, hextra, ok_bind, htimeout, ok_bind]
  dsimp only
  split
  · rename_i hold
    refine (evict_forgets hit hval).bind fun c₁ h₁ =>
      (addResponse_queued none 0 .keyNotexists).imp fun c' h' =>
        ⟨fun _ => hold, fun _ => ⟨h'.1, ?_⟩⟩
    rw [h'.2]
    exact h₁
  · rename_i hfresh
    refine (addResponse_queued cached.rdata cached.dataLength .success).bind
      fun c' h' => ensures_ok.mpr ⟨fun hforgets => ?_, fun h => absurd h hfresh⟩
    have := hforgets.1.symm.trans h'.1
    cases this

/-! ## Every step -/

/-- The event makes the server execute a GET that comes across `cached` at `q`. -/
def GetFinds (H : Host σ) (s : State σ) (a : Addr) (env : Env) (q : Addr)
    (cached : Request) (timeout : Nat) : Prop :=
  ∃ c q₁ r, Dispatches H s a env c q₁ r ∧
    ProtocolCommand.ofByte r.opcode = some .cmdGet ∧ Finds c r q cached timeout

/-- No timeout fires early, and an entry is forgotten when its timeout has passed. -/
def InTime (H : Host σ) (s : State σ) : Input → State σ → Prop
  | .ready a .read env, s' => ∀ q cached timeout, GetFinds H s a env q cached timeout →
      (Forgets s'.heap (s'.conn a) q ↔ (timeout : Int) < env.clock 1 - cached.received)
  | .ready _ .write _, _ => True
  | .idle env, s' => ∀ a, Conn.client (s.conn a) = true → (s'.conn a).free = true →
      ∃ k, s.conns[k]? = some a ∧
        (s.settings.idleConnTimeout : Int) < env.clock k - (s.conn a).lastHeard

/-- The ages that the input makes the server look at survive the loss of their high bits. -/
def Representable (H : Host σ) (s : State σ) : Input → Prop
  | .ready a .read env => ∀ q cached timeout, GetFinds H s a env q cached timeout →
      Faithful (env.clock 1 - cached.received) timeout
  | .ready _ .write _ => True
  | .idle env => ∀ k a, s.conns[k]? = some a → Visits s s.conns k →
      0 ≤ env.clock k - (s.conn a).lastHeard ∨
        uint32 (env.clock k - (s.conn a).lastHeard) ≤ s.settings.idleConnTimeout

/-- GET, in every state of the server. -/
theorem get_inTime (s : State σ) (a : Addr) (env : Env) :
    Ensures (step H s (.ready a .read env)) fun s' =>
      InTime H s (.ready a .read env) s' ↔ Representable H s (.ready a .read env) := by
  refine ensures_of_ok fun s' hs' => forall_congr' fun q => forall_congr' fun cached =>
    forall_congr' fun timeout => imp_congr_right fun ⟨c, q₁, r, hd, hget, hfinds⟩ => ?_
  rw [hd.step, interpret, hget] at hs'
  obtain ⟨c', hc', hs'⟩ := ok_of_bind_eq_ok hs'
  obtain rfl := Except.ok.inj hs'
  have hforgets := (getItem_forgets (c := c.withStats _) hfinds).of_ok hc'
  have hreceived : r.received = env.clock 1 := by
    obtain ⟨c₁, r₁, f, -, -, rfl⟩ := hd.executes
    rfl
  rw [put_conn_self, faithful_iff, ← hreceived]
  change (Forgets c'.heap c'.conn q ↔ _) ↔ _
  rw [hforgets]

/-- The sweep, in every state of the server. -/
theorem idle_inTime (s : State σ) (env : Env) :
    Ensures (step H s (.idle env)) fun s' =>
      (Representable H s (.idle env) → InTime H s (.idle env) s') ∧
      (s.conns.Nodup → InTime H s (.idle env) s' → Representable H s (.idle env)) := by
  refine ensures_of_ok fun s' hs' => ⟨fun hrep a hclient hfree => ?_,
    fun hnodup hin k a hk hvisit => ?_⟩
  · have hne : s'.conn a ≠ s.conn a := fun h => by
      rw [h] at hfree
      simp [Conn.client, hfree] at hclient
    obtain ⟨k, hk, hvisit, hover⟩ := sweep_closes.of_ok hs' a hne
    have hrep := hrep k a hk hvisit
    rw [Nat.zero_add, Overdue] at hover
    refine ⟨k, hk, ?_⟩
    rw [← early_iff] at hrep
    by_contra hearly
    exact hrep ⟨hover, not_lt.mp hearly⟩
  · rw [← early_iff]
    rintro ⟨hover, hage⟩
    have hgone := (sweep_reaches hnodup).of_ok hs' k a hk hvisit (by rwa [Nat.zero_add])
    obtain ⟨j, hj, hlate⟩ := hin a (hvisit k a le_rfl hk) hgone.1.free
    obtain rfl : j = k := (List.getElem?_inj (List.getElem?_eq_some_iff.mp hj).1 hnodup).mp
      (hj.trans hk.symm)
    exact absurd hlate (not_lt.mpr hage)

/-- In every run, at every step, the timeouts are right if and only if the ages fit. -/
theorem timeouts_exact_iff (s : State σ) (inputs : List Input) :
    Throughout (step H) (fun s i s' => (Representable H s i → InTime H s i s') ∧
      (s.conns.Nodup → InTime H s i s' → Representable H s i)) s inputs := by
  refine throughout_of_step (fun s i => ?_) s inputs
  cases i with
  | idle env => exact idle_inTime s env
  | ready a ev env =>
      cases ev with
      | write => exact ensures_of_ok fun _ _ => ⟨fun _ => trivial, fun _ _ => trivial⟩
      | read => exact (get_inTime s a env).imp fun _ h => ⟨h.mpr, fun _ => h.mp⟩

/-- All readings of the clock give `t`. -/
def clockAt (t : Int) : Env := ⟨fun _ => t, 1, some 7, .wouldBlock, .sent⟩

/-- A client connects, and then the clock is set back by a second. -/
theorem timeout_fires_early :
    ∃ s, start (Host.lp64 Allocator.unlimited) ⟨0, 2⟩ (emptyHeap ∅) 3 (clockAt 10) =
        .ok (some s) ∧
      ∃ s', step (Host.lp64 Allocator.unlimited) s (.ready 1 .read (clockAt 10)) = .ok s' ∧
        ∃ s'', step (Host.lp64 Allocator.unlimited) s' (.idle (clockAt 9)) = .ok s'' ∧
          ¬ InTime (Host.lp64 Allocator.unlimited) s' (.idle (clockAt 9)) s'' := by
  refine ⟨_, rfl, Exists.imp (fun s' hs' => ⟨hs'.1, Exists.imp (fun s'' hs'' =>
    ⟨hs''.1, fun hin => ?_⟩) (exists_of_returns hs'.2)⟩) (exists_of_returns
      (p := fun s' => returns (step (Host.lp64 Allocator.unlimited) s' (.idle (clockAt 9)))
        fun s'' => Conn.client (s'.conn 4) && (s''.conn 4).free &&
          decide ((s'.conn 4).lastHeard = 10)) ?_)⟩
  · have htest := hs''.2
    simp only [Bool.and_eq_true, decide_eq_true_eq] at htest
    obtain ⟨⟨hclient, hfree⟩, hheard⟩ := htest
    obtain ⟨k, -, hlate⟩ := hin 4 hclient hfree
    rw [hheard] at hlate
    change _ < (9 : Int) - 10 at hlate
    omega
  · decide +kernel

end Lightcache.Server
