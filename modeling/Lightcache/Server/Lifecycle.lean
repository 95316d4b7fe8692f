import Lightcache.Server.Invariant
import Lightcache.Server.Phases
import Lightcache.Hashtab.Grow

/-!
# The life of the server

`Sound` holds from the start on and is kept by every step: an event on a
connection, a new connection, and a sweep over the idle ones.
-/

namespace Lightcache.Server

open Lightcache Lightcache.Foundation Lightcache.Hashtab Heap

variable {σ : Type} {H : Host σ} {s s' : State σ} {a b : Addr} {c c' : Ctx σ}
  {f : Fields} {Q B W : Multiset Addr} {ev : Event} {env : Env}

/-! ## Events on a connection -/

/-- A structure for the next connection reads as if it owned no response. -/
def CleanBlock (H : Host σ) (s : State σ) : Prop :=
  ∀ b mem, (s.conns.find? fun a => (s.conn a).free) = none →
    liMalloc H.alloc s.heap.mem sizeofConn = (some b, mem) →
      outBufs (newConn H s.heap b).out = 0

/--
What the ownership of requests rests on: no command removes an entry that
another connection still points to, no SET is refused after it has been linked,
and no new connection structure reads as the owner of a response.
-/
def Careful (H : Host σ) (s : State σ) : Input → Prop
  | .ready a .read env =>
      if (s.conn a).listening then CleanBlock H s
      else Conn.client (s.conn a) = true → GrowsWell H (s.ctx a) env ∧
        ∀ x ∈ s.cache.live, Victim H (s.ctx a) env x →
          ∀ b ∈ s.conns, b ≠ a → Conn.client (s.conn b) = true →
            (s.conn b).inReq ≠ x.2
  | _ => True

/-- The faults that are left. -/
def StepFault (e : Fault) : Prop :=
  e = .nullDeref ∨ e = .nullItemKey ∨ e = .staleBuffer ∨ e = .outOfBounds

theorem ClientFault.stepFault {e : Fault} (h : ClientFault H c env e) : StepFault e := by
  cases h with
  | index => exact .inr (.inr (.inr rfl))
  | command run fault =>
      rcases fault with ⟨rfl, -⟩ | ⟨rfl, -, -⟩
      · exact .inl rfl
      · exact .inr (.inl rfl)
  | send sending source fault =>
      rcases fault with rfl | rfl | rfl
      · exact .inl rfl
      · exact .inr (.inr (.inl rfl))
      · exact .inr (.inr (.inr rfl))
  | beyond => exact .inr (.inr (.inr rfl))

/-- An event that the poller delivers to a connection in use. -/
theorem Sound.client (hs : Sound H s) (ha : a ∈ s.conns)
    (hclient : Conn.client (s.conn a) = true) (hev : (s.conn a).interest = some ev)
    (hcare : Careful H s (.ready a ev env)) :
    Post (handleClient H (s.ctx a) ev env) (fun c' => Sound H (s.put a c'))
      (ClientFault H (s.ctx a) env) := by
  have hflags : (s.conn a).free = false ∧ (s.conn a).listening = false := by
    simpa [Conn.client] using hclient
  have hsplit := hs.split ha
  rw [heldReqs_client hflags.1 hflags.2, heldBufs_client hflags.1 hflags.2] at hsplit
  refine (handleClient_post (c := s.ctx a) (hs.clients a ha hclient) hsplit hev env).mono
    (fun c' hc' => ?_) fun e he => he
  obtain ⟨gone, new, kept, hm, hvictims⟩ := hc'.moved hflags.1 hflags.2 (by
    rintro rfl
    rw [Careful, if_neg (by simp [hflags.2])] at hcare
    exact (hcare hclient).1)
  refine hs.put ha hm fun b hb hne hbc q hin x hx hval => ?_
  obtain ⟨rfl, hvictim⟩ := hvictims x hx
  rw [Careful, if_neg (by simp [hflags.2])] at hcare
  refine (hcare hclient).2 x ?_ hvictim b hb hne hbc (hin.trans hval.symm)
  have hlive : s.cache.live = gone + kept := hm.changed.before
  rw [hlive]
  exact Multiset.mem_add.mpr (.inl hx)

/-! ## New connections -/

/-- The cache, and the requests and buffers behind its entries, are as before. -/
structure Undisturbed (s s' : State σ) : Prop where
  cache : s'.cache = s.cache
  agree : Agree (cachedReqs s.cache.live) (cachedBufs s.heap s.cache.live) s.heap s'.heap

theorem Undisturbed.of_reqs {s s' : State σ} (hcache : s'.cache = s.cache)
    (hreqs : s'.heap.reqs = s.heap.reqs) (hbufs : s'.heap.bufs = s.heap.bufs) :
    Undisturbed s s' :=
  ⟨hcache, fun a _ => congrFun hreqs a, fun a _ => congrFun hbufs a⟩

theorem Undisturbed.trans {s s₁ s' : State σ} (h : Undisturbed s s₁)
    (h₁ : Undisturbed s₁ s') : Undisturbed s s' := by
  refine ⟨h₁.cache.trans h.cache, h.agree.trans ?_⟩
  have hagree := h₁.agree
  rw [h.cache, cachedBufs_congr h.agree.reqs] at hagree
  exact hagree

theorem Beside.undisturbed (hb : Beside (s.ctx a) c Q B) : Undisturbed s (s.put a c) :=
  ⟨hb.cache, hb.agree.mono (Multiset.le_add_right ..) (Multiset.le_add_right ..)⟩

/-- The time of an event is of no concern to the invariant. -/
theorem Sound.heard (hs : Sound H s) (a : Addr) (t : Int) :
    Sound H (s.modifyConn a fun conn => { conn with lastHeard := t }) := by
  have hsame := heard_conn s a t
  refine ⟨?_, fun b hb hclient => ?_, fun b hb hfree => ?_, fun b hb hlisten => ?_⟩
  · have hreqs : (s.modifyConn a fun conn => { conn with lastHeard := t }).reqsOf
        ↑s.conns = s.reqsOf ↑s.conns :=
      Multiset.bind_congr fun b _ => by rw [hsame]; rfl
    have hbufs : (s.modifyConn a fun conn => { conn with lastHeard := t }).bufsOf
        ↑s.conns = s.bufsOf ↑s.conns :=
      Multiset.bind_congr fun b _ => by rw [hsame]; rfl
    change Store H s.heap s.cache (State.reqsOf _ ↑s.conns) (State.bufsOf _ ↑s.conns)
      ↑s.conns
    rw [hreqs, hbufs]
    exact hs.store
  · rw [hsame] at hclient ⊢
    have ho := hs.clients b hb hclient
    exact ⟨ho.free, ho.phase.imp
      (fun ⟨q, r, f, hd, hr⟩ => ⟨q, r, f, ⟨hd.inReq, hd.req, hd.own, hd.header, hd.opcode,
        hd.fields⟩, ⟨hr.interest, hr.sdata, hr.shape, hr.small, hr.rbytes⟩⟩)
      fun hs => ⟨hs.interest, hs.state, hs.request⟩⟩
  · rw [hsame] at hfree ⊢
    obtain ⟨hidle, hlisten⟩ := hs.idle b hb hfree
    exact ⟨⟨hidle.free, hidle.state, hidle.sdata⟩, hlisten⟩
  · rw [hsame] at hlisten ⊢
    exact hs.poll b hb hlisten

/-- A structure that has been set up for a new client. -/
theorem Sound.setReadHeader (hs : Sound H s) (ha : a ∈ s.conns)
    (hheld : heldReqs s.heap (s.conn a) = 0 ∧ heldBufs s.heap (s.conn a) = 0)
    (hheap : c.heap = s.heap) (hcache : c.cache = s.cache)
    (hsettings : c.settings = s.settings) (hin : c.conn.inReq = none)
    (hfree : c.conn.free = false) (hlisten : c.conn.listening = false)
    (hout : outBufs c.conn.out = 0) :
    ∃ c', setReadHeader H c = .ok c' ∧ Sound H (s.put a c') ∧
      Undisturbed s (s.put a c') := by
  have hsplit := hs.split ha
  rw [hheld.1, hheld.2, zero_add, zero_add] at hsplit
  have hk : Keeping H c (s.reqsOf (s.others a)) (s.bufsOf (s.others a)) ↑s.conns := by
    refine ⟨?_, by simp [hin]⟩
    rw [connReqs_none hin, connBufs_none hin, hout, zero_add, zero_add, hheap, hcache]
    exact hsplit
  have hfirst : Beside (s.ctx a) c (s.reqsOf (s.others a)) (s.bufsOf (s.others a)) :=
    ⟨hcache, hsettings, hheap ▸ .refl ..⟩
  obtain ⟨c', hc', hb, hnext⟩ := hk.setReadHeader
  have hmoved : Moved H (s.ctx a) c' 0 0 s.cache.live (s.reqsOf (s.others a))
      (s.bufsOf (s.others a)) ↑s.conns := by
    rcases hnext with ⟨-, hstore, hclosed⟩ | ⟨q, r, hh, hr, hconn⟩
    · exact moved_of_closed hstore (hfirst.trans hb) hclosed hlisten
    · have hrd : Reading c'.conn r (noFields r) := by
        rw [hconn]
        exact reading_fresh _ hr q
      have hfree' : c'.conn.free = false := by
        rw [hconn]
        exact hfree
      exact moved_of_holding hh (hfirst.trans hb) (hh.open hrd hfree')
        (reading_outBufs hrd) (by rw [hconn]; exact hlisten)
  exact ⟨c', hc', hs.put ha hmoved fun _ _ _ _ _ _ _ hx => by simp at hx,
    (hfirst.trans hb).undisturbed⟩

/-- A structure that is in the list, but in use by no one. -/
def idleConn (conn : Conn) : Conn :=
  { conn with
    free := true
    listening := false
    state := .connClosed
    inReq := none
    out := { conn.out with sdata := none } }

/-- The server with a new block in the list of connections. -/
def State.listed (s : State σ) (b : Addr) (mem : σ) (conn : Conn) : State σ :=
  { s with
    heap := { s.heap with mem := mem }
    conns := b :: s.conns
    conn := Function.update s.conn b (idleConn conn) }

theorem Open.withMem {conn : Conn} {h : Heap σ} {ht : Cache} (ho : Open h ht conn)
    (mem : σ) : Open { h with mem := mem } ht conn :=
  ⟨ho.free, ho.phase.imp
    (fun ⟨q, r, f, hd, hr⟩ => ⟨q, r, f, ⟨hd.inReq, hd.req, hd.own, hd.header,
      hd.opcode, hd.fields⟩, hr⟩)
    fun hs => ⟨hs.interest, hs.state, hs.request⟩⟩

theorem Sound.listed (hs : Sound H s) {mem : σ}
    (hm : liMalloc H.alloc s.heap.mem sizeofConn = (some b, mem)) (conn : Conn) :
    Sound H (s.listed b mem conn) := by
  have htyped := hs.store.typed
  have hnew : b ∉ s.conns := by
    have := Owns.liMalloc_notMem htyped.owns hm
    simp only [Multiset.mem_add, not_or, Multiset.mem_coe] at this
    exact this.2.2
  have hself : (s.listed b mem conn).conn b = idleConn conn := Function.update_self ..
  have hother : ∀ a ∈ s.conns, (s.listed b mem conn).conn a = s.conn a :=
    fun a ha => Function.update_of_ne (fun hab : a = b => hnew (hab ▸ ha)) ..
  refine ⟨?_, fun a ha hclient => ?_, fun a ha hfree => ?_, fun a ha hlisten => ?_⟩
  · have hreqs : (s.listed b mem conn).reqsOf ↑(b :: s.conns) = s.reqsOf ↑s.conns := by
      rw [← Multiset.cons_coe, State.reqsOf, Multiset.cons_bind, hself,
        heldReqs_free rfl, zero_add]
      exact Multiset.bind_congr fun a ha => by rw [hother a (Multiset.mem_coe.mp ha)]; rfl
    have hbufs : (s.listed b mem conn).bufsOf ↑(b :: s.conns) = s.bufsOf ↑s.conns := by
      rw [← Multiset.cons_coe, State.bufsOf, Multiset.cons_bind, hself,
        heldBufs_free rfl, zero_add]
      exact Multiset.bind_congr fun a ha => by rw [hother a (Multiset.mem_coe.mp ha)]; rfl
    change Store H { s.heap with mem := mem } s.cache
      ((s.listed b mem conn).reqsOf ↑(b :: s.conns))
      ((s.listed b mem conn).bufsOf ↑(b :: s.conns)) ↑(b :: s.conns)
    rw [hreqs, hbufs, ← Multiset.cons_coe, ← Multiset.singleton_add]
    refine hs.store.frame (htyped.withMem mem
      ((Owns.liMalloc htyped.owns hm).congr ?_)) ⟨fun _ _ => rfl, fun _ _ => rfl⟩
    abel
  · rcases List.mem_cons.mp ha with rfl | ha
    · rw [hself] at hclient
      cases hclient
    · rw [hother a ha] at hclient ⊢
      exact (hs.clients a ha hclient).withMem mem
  · rcases List.mem_cons.mp ha with rfl | ha
    · rw [hself]
      exact ⟨⟨rfl, rfl, rfl⟩, rfl⟩
    · rw [hother a ha] at hfree ⊢
      exact hs.idle a ha hfree
  · rcases List.mem_cons.mp ha with rfl | ha
    · rw [hself] at hlisten
      cases hlisten
    · rw [hother a ha] at hlisten ⊢
      exact hs.poll a ha hlisten

/-- An allocation for the list of connections that fails. -/
theorem Sound.malloc_none (hs : Sound H s) {mem : σ} {n : Nat}
    (hm : liMalloc H.alloc s.heap.mem n = (none, mem)) :
    Sound H { s with heap := { s.heap with mem := mem } } := by
  have htyped := hs.store.typed
  refine ⟨hs.store.frame (htyped.withMem mem
    ((Owns.liMalloc_none htyped.owns hm).congr ?_)) ⟨fun _ _ => rfl, fun _ _ => rfl⟩,
    fun a ha hclient => (hs.clients a ha hclient).withMem mem, hs.idle, hs.poll⟩
  abel

theorem Sound.accept (hs : Sound H s) (hclean : CleanBlock H s) (env : Env) :
    Post (acceptConn H s env) (fun s' => Sound H s' ∧ Undisturbed s s')
      (fun _ => False) := by
  rw [acceptConn]
  cases env.accept with
  | none => exact ⟨hs, .of_reqs rfl rfl rfl⟩
  | some fd =>
      dsimp only
      rw [makeConn]
      cases hfind : s.conns.find? fun a => (s.conn a).free with
      | some b =>
          have hb : b ∈ s.conns := List.mem_of_find?_eq_some hfind
          have hfree : (s.conn b).free = true := by
            simpa using List.find?_some hfind
          obtain ⟨hidle, hlisten⟩ := hs.idle b hb hfree
          dsimp only
          obtain ⟨c', hc', hsound, hsame⟩ := hs.setReadHeader
            (c := ({ s with stats := { s.stats with
                currConnections := s.stats.currConnections + 1 } }.modifyConn b
              (openConn fd env)).ctx b) hb ⟨heldReqs_free hfree, heldBufs_free hfree⟩
            rfl rfl rfl (by simp [State.ctx, State.modifyConn, openConn])
            (by simp [State.ctx, State.modifyConn, openConn])
            (by simp [State.ctx, State.modifyConn, openConn])
            (by simp [State.ctx, State.modifyConn, openConn, outBufs, hidle.sdata])
          have hput : State.put ({ s with stats := { s.stats with
              currConnections := s.stats.currConnections + 1 } }.modifyConn b
              (openConn fd env)) b c' = s.put b c' := by
            rw [State.put, State.put, State.modifyConn, Function.update_idem]
          rw [hc', ok_bind]
          change Sound H (State.put _ b c') ∧ Undisturbed s (State.put _ b c')
          rw [hput]
          exact ⟨hsound, hsame⟩
      | none =>
          dsimp only
          rcases hm : liMalloc H.alloc s.heap.mem sizeofConn with ⟨_ | b, mem⟩
          · exact ⟨hs.malloc_none hm, .of_reqs rfl rfl rfl⟩
          · dsimp only
            have hlisted := hs.listed hm (newConn H s.heap b)
            have hself : (s.listed b mem (newConn H s.heap b)).conn b =
                idleConn (newConn H s.heap b) := Function.update_self ..
            obtain ⟨c', hc', hsound, hsame⟩ := hlisted.setReadHeader (a := b)
              (c := ⟨{ s.heap with mem := mem }, s.cache, s.settings,
                { s.stats with currConnections := s.stats.currConnections + 1 },
                openConn fd env (newConn H s.heap b)⟩) (List.mem_cons_self ..)
              (by rw [hself]; exact ⟨heldReqs_free rfl, heldBufs_free rfl⟩)
              rfl rfl rfl rfl rfl rfl (hclean b mem hfind hm)
            rw [State.ctx]
            dsimp only
            rw [Function.update_self, hc', ok_bind]
            have hfirst : Undisturbed s (s.listed b mem (newConn H s.heap b)) :=
              .of_reqs rfl rfl rfl
            refine cast (congrArg (fun s' => Sound H s' ∧ Undisturbed s s') ?_)
              (And.intro hsound (hfirst.trans hsame))
            rw [State.put, State.put, State.listed]
            simp

/-! ## The idle sweep -/

theorem Sound.disconnect (hs : Sound H s) (ha : a ∈ s.conns)
    (hclient : Conn.client (s.conn a) = true) :
    ∃ c', disconnectConn H (s.ctx a) = .ok c' ∧ Sound H (s.put a c') ∧
      Beside (s.ctx a) c' (s.reqsOf (s.others a)) (s.bufsOf (s.others a)) ∧
      Closed (s.conn a) c'.conn := by
  have hflags : (s.conn a).free = false ∧ (s.conn a).listening = false := by
    simpa [Conn.client] using hclient
  have hsplit := hs.split ha
  rw [heldReqs_client hflags.1 hflags.2, heldBufs_client hflags.1 hflags.2] at hsplit
  have hk := Open.keeping (c := s.ctx a) (hs.clients a ha hclient) hsplit
  obtain ⟨c', hc', hstore, hb, hclosed⟩ := hk.disconnect
  exact ⟨c', hc', hs.put ha (moved_of_closed hstore hb hclosed hflags.2)
    fun _ _ _ _ _ _ _ hx => by simp at hx, hb, hclosed⟩

theorem Sound.sweep {L : List Addr} (hs : Sound H s) (hL : ∀ a ∈ L, a ∈ s.conns)
    (i : Nat) (env : Env) :
    Post (disconnectIdleFrom H L i env s) (fun s' => Sound H s' ∧ Undisturbed s s')
      (fun _ => False) := by
  induction L generalizing s i with
  | nil => exact ⟨hs, .of_reqs rfl rfl rfl⟩
  | cons a L ih =>
      rw [disconnectIdleFrom]
      split
      · exact ⟨hs, .of_reqs rfl rfl rfl⟩
      · rename_i hstop
        split
        · obtain ⟨c', hc', hsound, hb, -⟩ := hs.disconnect (hL a (by simp))
            (by simpa [Conn.client] using hstop)
          rw [hc', ok_bind]
          exact (ih hsound (fun b hb => hL b (List.mem_cons_of_mem _ hb)) _).imp
            fun s' hs' => ⟨hs'.1, hb.undisturbed.trans hs'.2⟩
        · exact ih hs (fun b hb => hL b (List.mem_cons_of_mem _ hb)) _

/-! ## All steps, and all runs -/

theorem cleanBlock_heard (h : CleanBlock H s) (a : Addr) (t : Int) :
    CleanBlock H (s.modifyConn a fun conn => { conn with lastHeard := t }) := by
  intro b mem hfind hm
  refine h b mem ?_ hm
  rw [← hfind]
  congr 1
  funext x
  by_cases hx : x = a
  · subst hx
    simp [State.modifyConn]
  · simp [State.modifyConn, hx]

/-- How a step can fail. -/
def Fails (H : Host σ) (s : State σ) : Input → Fault → Prop
  | .ready a _ env, e => ClientFault H (s.ctx a) env e
  | .idle _, _ => False

theorem Sound.step_fails (hs : Sound H s) {i : Input} (hcare : Careful H s i) :
    Post (Server.step H s i) (Sound H) (Fails H s i) := by
  cases i with
  | idle env => exact (hs.sweep (fun _ h => h) 0 env).mono (fun _ h => h.1) fun _ => False.elim
  | ready a ev env =>
      rw [Server.step]
      split
      case isFalse => exact hs
      rename_i hguard
      obtain ⟨ha, hev⟩ := hguard
      rw [eventHandler]
      by_cases hclosed : (s.conn a).state = .connClosed
      · -- the connection was closed by an earlier event
        rw [if_neg fun h => h.1 hclosed, handleClient_closed (c := s.ctx a) hclosed,
          ok_bind]
        change Sound H (s.put a (s.ctx a))
        rwa [put_ctx]
      replace hev := hev.resolve_right hclosed
      cases hlisten : (s.conn a).listening with
      | true =>
          obtain rfl : ev = .read := Option.some.inj (hev.symm.trans (hs.poll a ha hlisten))
          rw [if_pos ⟨hclosed, rfl, rfl⟩]
          rw [Careful, if_pos hlisten] at hcare
          exact ((hs.heard a _).accept (cleanBlock_heard hcare a _) env).mono
            (fun _ h => h.1) fun _ => False.elim
      | false =>
          rw [if_neg fun h => by simp at h]
          have hclient : Conn.client (s.conn a) = true := by
            cases hfree : (s.conn a).free with
            | true => exact absurd (hs.idle a ha hfree).1.state hclosed
            | false => simp [Conn.client, hfree, hlisten]
          exact (hs.client ha hclient hev hcare).bind fun c' hc' => hc'

theorem Sound.step (hs : Sound H s) {i : Input} (hcare : Careful H s i) :
    Post (Server.step H s i) (Sound H) StepFault :=
  (hs.step_fails hcare).mono (fun _ h => h) fun e he => by
    cases i with
    | idle env => exact he.elim
    | ready a ev env => exact ClientFault.stepFault he

theorem cleanBlock_of_clears (h : H.alloc.clears = true) : CleanBlock H s := by
  intro b mem _ _
  rw [newConn, newBlock, if_pos h, outBufs, H.connOf_clear]
  rfl

/-- The memory before the server starts: no block is in use. -/
structure Boot (H : Host σ) (heap : Heap σ) : Prop where
  live : H.alloc.live heap.mem = ∅
  reqs : ∀ a, heap.reqs a = none
  bufs : ∀ a, heap.bufs a = none

theorem boot_emptyHeap {mem : σ} (h : H.alloc.live mem = ∅) : Boot H (emptyHeap mem) :=
  ⟨h, fun _ => rfl, fun _ => rfl⟩

/-- What `main` has set up before its loop: a listening socket and an empty table. -/
theorem start_fresh {settings : Settings} {heap : Heap σ} {fd : Nat}
    (hboot : Boot H heap) (hstart : start H settings heap fd env = .ok (some s)) :
    ∃ b mem mem' cache, liMalloc H.alloc heap.mem sizeofConn = (some b, mem) ∧
      Fresh 4 cache ∧ H.alloc.Owns mem' (cache.blocks + {b}) ∧ s =
        { heap := { heap with mem := mem' }
          cache := cache
          settings := settings
          stats := { initStats env with currConnections := 0 + 1 }
          conns := [b]
          conn := Function.update (fun _ => H.connOf []) b
            { openConn fd env (newConn H heap b) with
              listening := true, interest := some .read } } := by
  rw [start, makeConn] at hstart
  dsimp only [initState, List.find?_nil] at hstart
  rcases hm : liMalloc H.alloc heap.mem sizeofConn with ⟨_ | b, mem⟩ <;>
    rw [hm] at hstart
  · cases hstart
  dsimp only at hstart
  have hown : H.alloc.Owns heap.mem 0 := by
    rw [Allocator.Owns, hboot.live]
    rfl
  have hown₁ := Owns.liMalloc hown hm
  have hcreate := htcreate_post (V := Option Addr) hown₁ 4
  obtain ⟨⟨r, mem'⟩, hrun, hstart⟩ := ok_of_bind_eq_ok hstart
  rw [show htcreate H.alloc 4 mem = .ok (r, mem') from hrun] at hcreate
  cases r with
  | none => cases hstart
  | some cache =>
      obtain ⟨hfresh, hown'⟩ := hcreate
      refine ⟨b, mem, mem', cache, rfl, hfresh, hown', ?_⟩
      rw [← Option.some.inj (Except.ok.inj hstart), State.modifyConn]
      simp [initStats]

theorem sound_start {settings : Settings} {heap : Heap σ} {fd : Nat}
    (hboot : Boot H heap) (hstart : start H settings heap fd env = .ok (some s)) :
    Sound H s := by
  obtain ⟨b, mem, mem', cache, -, hfresh, hown, rfl⟩ := start_fresh hboot hstart
  have hleft : cache.leftover = 0 := by
    simp [Htab.leftover, hfresh.items, Hashtab.leftover]
  refine ⟨⟨hfresh.ok, ⟨?_, fun a => ?_, fun a => ?_⟩, ?_, ?_⟩, ?_, ?_, ?_⟩
  · refine hown.congr ?_
    simp [State.reqsOf, State.bufsOf, hfresh.live, heldReqs, heldBufs, Conn.client]
  · simp [State.reqsOf, hfresh.live, heldReqs, Conn.client, hboot.reqs]
  · simp [State.bufsOf, hfresh.live, heldBufs, Conn.client, hboot.bufs]
  · simp [hfresh.live]
  · simp [hleft]
  · simp [Conn.client]
  · simp [openConn]
  · simp

theorem Sound.run {inputs : List Input} (hs : Sound H s)
    (hcare : Meets (Server.step H) (Careful H) s inputs) :
    Post (run (Server.step H) s inputs) (Sound H) StepFault :=
  run_post (fun _ _ hs hcare => hs.step hcare) hs hcare

/-! ## Careful steps, recognised -/

/-- The command that the event lets the connection execute. -/
def commandOf (H : Host σ) (c : Ctx σ) (env : Env) : Option (Ctx σ × Addr × Request) :=
  match readRequest H (touched c env) env.read with
  | .ok (c₁, _, true) =>
      match c₁.conn.inReq with
      | some q => (c₁.heap.reqs q).map fun r => (c₁, q, r)
      | none => none
  | _ => none

theorem Executes.commandOf {c₁ : Ctx σ} {q : Addr} {r : Request}
    (h : Executes H c env c₁ q r f) : commandOf H c env = some (c₁, q, r) := by
  obtain ⟨ret, hrun⟩ := h.run
  rw [Server.commandOf, hrun]
  dsimp only
  rw [h.inReq]
  dsimp only
  rw [h.req]
  rfl

/-- Whether the command leaves the entries of this name alone. -/
def leaves (f : Fields) (name : Bytes) : Bool :=
  f.command != some .cmdFlushAll && cstr name != cstr f.key

theorem not_removes_of_leaves {h : Heap σ} {ht : Cache} {now : Int} {x : Bytes × Option Addr}
    (hl : leaves f x.1 = true) : ¬ Removes h ht now f x := by
  obtain ⟨hflush, hkey⟩ : f.command ≠ some .cmdFlushAll ∧ cstr x.1 ≠ cstr f.key := by
    simpa [leaves] using hl
  have hclash : ∀ n, ¬ Clash n x.1 f.key := fun n hc => hkey hc.2
  rw [Removes]
  split
  · rename_i hcmd
    exact absurd hcmd hflush
  · exact hclash _
  · exact fun hset => hclash _ hset.2.2
  · exact fun hget => hclash _ hget.1
  · exact id

/-- Whether the structure for the next connection reads as if it owned no response. -/
def cleanTest (H : Host σ) (s : State σ) : Bool :=
  (s.conns.find? fun a => (s.conn a).free).isSome ||
    match liMalloc H.alloc s.heap.mem sizeofConn with
    | (some b, _) => outBufs (newConn H s.heap b).out == 0
    | (none, _) => true

theorem cleanBlock_of_test (h : cleanTest H s = true) : CleanBlock H s := by
  intro b mem hfind hmalloc
  rw [cleanTest, hfind, hmalloc] at h
  simpa using h

/--
Whether a step is careful.  Another client may point to a live entry, or send what it
does not own, only where the command leaves the entry alone.
-/
def carefulTest (H : Host σ) (s : State σ) : Input → Bool
  | .ready a .read env =>
      if (s.conn a).listening then cleanTest H s
      else match commandOf H (s.ctx a) env with
        | none => true
        | some (c₁, q, r) =>
            !growthFails H.alloc s.cache (some ((c₁.heap.fields r).key ++ [0]))
                (c₁.heap.fields r).key.length (some q) (arrived c₁ q r env).heap.mem &&
              s.conns.all fun b => b == a || !Conn.client (s.conn b) ||
                s.cache.items.all fun it => it.free || leaves (c₁.heap.fields r) it.name ||
                  (s.conn b).inReq != it.val && (s.conn b).out.canFree
  | _ => true

/-- What the test says about an entry that the step removes. -/
theorem spared_of_test (h : carefulTest H s (.ready a .read env) = true)
    (hlisten : (s.conn a).listening = false) {x : Bytes × Option Addr} (hx : x ∈ s.cache.live)
    (hv : Victim H (s.ctx a) env x) (hb : b ∈ s.conns) (hba : b ≠ a)
    (hclient : Conn.client (s.conn b) = true) :
    (s.conn b).inReq ≠ x.2 ∧ (s.conn b).out.canFree = true := by
  obtain ⟨c₁, q, r, f, hexec, hremoves⟩ := hv
  rw [carefulTest, hlisten, if_neg (by decide), hexec.commandOf] at h
  dsimp only at h
  rw [hexec.fields, Bool.and_eq_true, List.all_eq_true] at h
  have hitems := h.2 b hb
  simp only [beq_eq_false_iff_ne.mpr hba, hclient, Bool.not_true, Bool.false_or,
    List.all_eq_true] at hitems
  obtain ⟨it, hit, hlive, rfl⟩ := mem_live.mp hx
  have htest := hitems it (Multiset.mem_coe.mp hit)
  rw [hlive, Bool.false_or, Bool.or_eq_true] at htest
  simpa using htest.resolve_left fun hl => not_removes_of_leaves hl hremoves

theorem careful_of_test {i : Input} (h : carefulTest H s i = true) : Careful H s i := by
  cases i with
  | idle env => trivial
  | ready a ev env =>
      cases ev with
      | write => trivial
      | read =>
          rw [Careful]
          split
          · rename_i hlisten
            rw [carefulTest, if_pos hlisten] at h
            exact cleanBlock_of_test h
          · rename_i hlisten
            rw [Bool.not_eq_true] at hlisten
            refine fun _ => ⟨fun c₁ q r f hexec hrefused => ?_, fun x hx hv b hb hba hclient =>
              (spared_of_test h hlisten hx hv hb hba hclient).1⟩
            rw [carefulTest, hlisten, if_neg (by decide), hexec.commandOf] at h
            dsimp only at h
            rw [hexec.fields, Bool.and_eq_true, Bool.not_eq_true'] at h
            exact Bool.false_ne_true (h.1.symm.trans hrefused.2.2.2)

/--
Two clients store a value each, the first one reads its own back while the second one
is answered, and the second one deletes that of the first, which goes on meanwhile.
-/
def visits (listener a b : Addr) : List Input :=
  knock listener :: knock listener :: (arrive a setPacket.encode ++ take a 8 ++
    arrive b otherPacket.encode ++ arrive a getPacket.encode ++ take b 8 ++ take a 9 ++
    arrive b deletePacket.encode ++ arrive a (otherPacket.encode.take 13))

def twoClients : List Input := visits 1 4 6

theorem careful_twoClients :
    ∃ s, start (Host.lp64 Allocator.unlimited) ⟨0, 2⟩ (emptyHeap ∅) 3
        (hearing .eof) = .ok (some s) ∧
      Meets (Server.step (Host.lp64 Allocator.unlimited))
        (Careful (Host.lp64 Allocator.unlimited)) s twoClients ∧
      ∃ s', Foundation.run (Server.step (Host.lp64 Allocator.unlimited)) s twoClients = .ok s' := by
  obtain ⟨s, hstart, htest⟩ : ∃ s, start (Host.lp64 Allocator.unlimited) ⟨0, 2⟩
      (emptyHeap ∅) 3 (hearing .eof) = .ok (some s) ∧
      (meetsTest (Server.step (Host.lp64 Allocator.unlimited))
        (carefulTest (Host.lp64 Allocator.unlimited)) s twoClients &&
        returns (Foundation.run (Server.step (Host.lp64 Allocator.unlimited)) s twoClients)
          fun s' => s'.conns.length == 3) = true := ⟨_, rfl, by decide +kernel⟩
  rw [Bool.and_eq_true] at htest
  obtain ⟨s', hs', -⟩ := exists_of_returns htest.2
  exact ⟨s, hstart, meets_of_test htest.1 fun _ _ _ => careful_of_test, s', hs'⟩

end Lightcache.Server
