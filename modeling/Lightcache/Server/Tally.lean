import Lightcache.Server.Lifecycle

/-!
# The statistics

`curr_connections` counts the structures that are in use, the listening one
included, and every counted GET is a hit or a miss.
-/

namespace Lightcache.Server

open Lightcache Lightcache.Foundation Lightcache.Hashtab

/-- One value of a function on a list without repetitions is exchanged. -/
theorem countP_update {α β : Type*} [DecidableEq α] {L : List α} {a : α}
    (hL : L.Nodup) (ha : a ∈ L) (p : β → Bool) (f : α → β) (x : β) :
    L.countP (fun b => p (Function.update f a x b)) + (p (f a)).toNat =
      L.countP (fun b => p (f b)) + (p x).toNat := by
  induction L with
  | nil => cases ha
  | cons b L ih =>
      obtain ⟨hb, hL⟩ := List.nodup_cons.mp hL
      rw [List.countP_cons, List.countP_cons]
      by_cases hab : b = a
      · subst hab
        have hrest : L.countP (fun c => p (Function.update f b x c)) =
            L.countP fun c => p (f c) :=
          List.countP_congr fun c hc => by
            rw [Function.update_of_ne fun hcb : c = b => hb (hcb ▸ hc)]
        rw [hrest, Function.update_self]
        cases p x <;> cases p (f b) <;> simp
      · have hmem := (List.mem_cons.mp ha).resolve_left fun h => hab h.symm
        have := ih hL hmem
        rw [Function.update_of_ne hab]
        omega

variable {σ : Type} {H : Host σ} {s s' : State σ} {a b : Addr} {c c' : Ctx σ}
  {ev : Event} {env : Env}

/-- The structures in use. -/
def openCount (s : State σ) : Nat := s.conns.countP fun a => !(s.conn a).free

structure Tallied (s : State σ) : Prop where
  curr : s.stats.currConnections = UInt64.ofNat (openCount s)
  gets : s.stats.Balanced

theorem ofNat_succ_sub (n : Nat) : UInt64.ofNat (n + 1) - 1 = UInt64.ofNat n := by
  rw [UInt64.ofNat_add]
  exact UInt64.add_sub_cancel ..

theorem openCount_put (hnodup : s.conns.Nodup) (ha : a ∈ s.conns) :
    openCount (s.put a c) + (!(s.conn a).free).toNat =
      openCount s + (!c.conn.free).toNat :=
  countP_update hnodup ha (fun conn : Conn => !conn.free) s.conn c.conn

/-- The structure at `a`, which was in use, has been served or given up. -/
theorem Tallied.put (hs : Tallied s) (hnodup : s.conns.Nodup) (ha : a ∈ s.conns)
    (hfree : (s.conn a).free = false)
    (hc : Awaits (s.ctx a) c ∨ Disconnected (s.ctx a) c) : Tallied (s.put a c) := by
  have hcount := openCount_put (c := c) hnodup ha
  rw [hfree] at hcount
  rcases hc with ⟨ev, -, hc⟩ | hc
  · have hkept : c.conn.free = false := hc.free.trans hfree
    rw [hkept] at hcount
    exact ⟨hc.curr.trans (hs.curr.trans (congrArg _ (Nat.add_right_cancel hcount.symm))),
      hc.gets hs.gets⟩
  · rw [hc.free] at hcount
    refine ⟨?_, hc.gets hs.gets⟩
    have hprev : s.stats.currConnections = UInt64.ofNat (openCount (s.put a c) + 1) :=
      hs.curr.trans (congrArg _ (by simpa using hcount.symm))
    change c.stats.currConnections = _
    rw [hc.curr]
    change s.stats.currConnections - 1 = _
    rw [hprev, ofNat_succ_sub]

theorem Tallied.heard (hs : Tallied s) (a : Addr) (t : Int) :
    Tallied (s.modifyConn a fun conn => { conn with lastHeard := t }) := by
  refine ⟨hs.curr.trans (congrArg _ ?_), hs.gets⟩
  exact List.countP_congr fun b _ => by rw [heard_conn]

/-- A structure that is handed out is in use from now on. -/
theorem Made.tallied {fd : Nat} (h : Made H s fd env b s') (hs : Tallied s)
    (hnodup : s'.conns.Nodup) : Tallied s' := by
  refine ⟨?_, by rw [h.stats]; exact hs.gets⟩
  have hcount : openCount s' = openCount s + 1 := by
    rcases h.conns with ⟨hconns, hb, hfree⟩ | ⟨hconns, -⟩
    · have hconn : s'.conn = Function.update s.conn b (s'.conn b) := by
        funext a
        by_cases hab : a = b
        · subst hab
          simp
        · rw [Function.update_of_ne hab, h.other a hab]
      have := countP_update (hconns ▸ hnodup) hb (fun conn : Conn => !conn.free) s.conn (s'.conn b)
      rw [← hconn, hfree, h.open.1] at this
      rw [openCount, openCount, hconns]
      simpa using this
    · rw [hconns, List.nodup_cons] at hnodup
      rw [openCount, openCount, hconns, List.countP_cons, h.open.1]
      refine congrArg (· + 1) (List.countP_congr fun a ha => ?_)
      rw [h.other a fun hab => hnodup.1 (hab ▸ ha)]
  rw [h.stats, hcount, UInt64.ofNat_add]
  exact congrArg (· + 1) hs.curr

theorem Made.mem_self {fd : Nat} (h : Made H s fd env b s') : b ∈ s'.conns := by
  rcases h.conns with ⟨hconns, hb, -⟩ | ⟨hconns, -⟩
  · rwa [hconns]
  · rw [hconns]
    exact List.mem_cons_self ..

/-- A new block is not the block of a structure in the list. -/
theorem Sound.newBlock_notMem {mem : σ} {n : Nat} (hs : Sound H s)
    (hm : liMalloc H.alloc s.heap.mem n = (some b, mem)) : b ∉ s.conns := by
  have := Owns.liMalloc_notMem hs.store.typed.owns hm
  simp only [Multiset.mem_add, not_or, Multiset.mem_coe] at this
  exact this.2.2

theorem Made.nodup {fd : Nat} (h : Made H s fd env b s') (hs : Sound H s) :
    s'.conns.Nodup := by
  rcases h.conns with ⟨hconns, -⟩ | ⟨hconns, mem, hm⟩
  · rw [hconns]
    exact Multiset.coe_nodup.mp hs.nodup
  · rw [hconns]
    exact List.nodup_cons.mpr ⟨hs.newBlock_notMem hm, Multiset.coe_nodup.mp hs.nodup⟩

/-! ## Every step -/

theorem Tallied.accept (ht : Tallied s) (hs : Sound H s) :
    Ensures (acceptConn H s env) Tallied := by
  rw [acceptConn]
  cases env.accept with
  | none => exact ht
  | some fd =>
      have hmade := makeConn_effect H s fd env
      dsimp only
      rcases hrun : makeConn H s fd env with ⟨_ | b, s'⟩
      · rw [hrun] at hmade
        obtain ⟨hconns, hconn, hstats⟩ := hmade
        refine ⟨?_, by rw [hstats]; exact ht.gets⟩
        rw [hstats, openCount, hconns, hconn]
        exact ht.curr
      · rw [hrun] at hmade
        have hmade : Made H s fd env b s' := hmade
        refine (setReadHeader_effect (c := s'.ctx b)).bind fun c' hc' => ?_
        exact (hmade.tallied ht (hmade.nodup hs)).put (hmade.nodup hs) hmade.mem_self
          hmade.open.1 (hc'.imp (fun h => h.awaits rfl) id)

theorem Tallied.sweep {L : List Addr} (ht : Tallied s) (hnodup : s.conns.Nodup)
    (hL : ∀ a ∈ L, a ∈ s.conns) (i : Nat) (env : Env) :
    Ensures (disconnectIdleFrom H L i env s) Tallied := by
  induction L generalizing s i with
  | nil => exact ht
  | cons a L ih =>
      have hrest : ∀ b ∈ L, b ∈ s.conns := fun b hb => hL b (List.mem_cons_of_mem _ hb)
      rw [disconnectIdleFrom]
      split
      · exact ht
      · rename_i hstop
        have hfree : (s.conn a).free = false := by simpa using fun h => hstop (.inl h)
        split
        · exact disconnectConn_effect.bind fun c' hc' =>
            ih (ht.put hnodup (hL a (by simp)) hfree (.inr hc')) hnodup hrest _
        · exact ih ht hnodup hrest _

theorem Tallied.step (ht : Tallied s) (hs : Sound H s) (hp : Phased s) (i : Input) :
    Ensures (step H s i) Tallied := by
  have hnodup := Multiset.coe_nodup.mp hs.nodup
  cases i with
  | idle env => exact ht.sweep hnodup (fun _ h => h) 0 env
  | ready a ev env =>
      rw [Server.step]
      split
      case isFalse => exact ht
      rename_i hguard
      obtain ⟨ha, hev⟩ := hguard
      rw [eventHandler]
      split
      · exact (ht.heard a _).accept (hs.heard a _)
      · rename_i hlisten
        by_cases hclosed : (s.conn a).state = .connClosed
        · rw [handleClient_closed (c := s.ctx a) hclosed, ok_bind]
          change Tallied (s.put a (s.ctx a))
          rwa [put_ctx]
        · have hclient := hp.client_of_delivered ha hev hclosed hlisten
          obtain ⟨hfree, hstate, hinterest⟩ := hp.delivered ha hev hclosed hclient
          exact (handleClient_effect (c := s.ctx a) hstate hinterest).bind fun c' hc' =>
            ht.put hnodup ha hfree hc'

/-! ## Every run -/

section Runs

variable {settings : Settings} {heap : Heap σ} {fd : Nat}

theorem tallied_start (h : start H settings heap fd env = .ok (some s)) : Tallied s := by
  obtain ⟨b, hconns, -, hfree, -, hstats⟩ := start_conns h
  have hcount : openCount s = 1 := by
    rw [openCount, hconns, List.countP_singleton, hfree]
    rfl
  refine ⟨?_, ?_⟩
  · rw [hstats, hcount]
    rfl
  · rw [hstats]
    rfl

/-- What the statistics say between two events. -/
structure Agreeing (H : Host σ) (s : State σ) : Prop where
  curr : s.stats.currConnections = UInt64.ofNat (openCount s)
  unwrapped : openCount s < 2 ^ 64 → s.stats.currConnections.toNat = openCount s
  gets : s.stats.cmdGet = s.stats.getHits + s.stats.getMisses
  /-- `make_conn` hands out a new structure, or one that is not in use. -/
  handsOut : ∀ fd env a s', makeConn H s fd env = (some a, s') → a ∈ s.conns →
    (s.conn a).free = true

theorem Tallied.agreeing (ht : Tallied s) (hs : Sound H s) : Agreeing H s where
  curr := ht.curr
  unwrapped h := by
    rw [ht.curr]
    exact UInt64.toNat_ofNat_of_lt' h
  gets := ht.gets
  handsOut fd env a s' hmake ha := by
    have hmade := makeConn_effect H s fd env
    rw [hmake] at hmade
    rcases hmade.conns with ⟨-, -, hfree⟩ | ⟨-, mem, hm⟩
    · exact hfree
    · exact absurd ha (hs.newBlock_notMem hm)

theorem statistics_agree (hboot : Boot H heap)
    (hstart : start H settings heap fd env = .ok (some s)) {inputs : List Input}
    (hcare : Meets (step H) (Careful H) s inputs) :
    Post (run (step H) s inputs) (Agreeing H) StepFault := by
  refine (run_post (I := fun s => (Sound H s ∧ Phased s) ∧ Tallied s)
    (fun s i ⟨⟨hs, hp⟩, ht⟩ hcare =>
      ((hs.step hcare).and_ensures (hp.step i)).and_ensures (ht.step hs hp i))
    ⟨⟨sound_start hboot hstart, phased_start hstart⟩, tallied_start hstart⟩ hcare).imp ?_
  exact fun s' ⟨⟨hs, _⟩, ht⟩ => ht.agreeing hs

/-- Two clients store, read and delete values. -/
theorem statistics_agree_two :
    ∃ s, start (Host.lp64 Allocator.unlimited) ⟨0, 2⟩ (emptyHeap ∅) 3
        (hearing .eof) = .ok (some s) ∧
      ∃ s', run (step (Host.lp64 Allocator.unlimited)) s twoClients = .ok s' ∧
        Agreeing (Host.lp64 Allocator.unlimited) s' := by
  obtain ⟨s, hstart, hcare, s', hs'⟩ := careful_twoClients
  exact ⟨s, hstart, s', hs', (statistics_agree (boot_emptyHeap rfl) hstart hcare).of_ok hs'⟩

/--
The bytes of a key that looks, in a recycled block, like a connection that owns
the response at address 8.
-/
def craftedKey : Bytes :=
  List.replicate 40 0 ++ leBytes 8 8 ++ List.replicate 4 0 ++ leBytes 4 1

/-- A request with an unknown opcode, the crafted key, and as much data. -/
def craftedRequest : Bytes :=
  [9, 56, 0, 0] ++ netBytes 4 56 ++ netBytes 4 0 ++ craftedKey ++ craftedKey

/--
The first client sends the crafted request; while it is answered, a second one
connects and is given the structure at address 8.  A third one then connects.
-/
def craftedRun : List Input :=
  knock 1 :: arrive 4 craftedRequest ++ knock 1 :: take 4 8 ++ [knock 1]

/-- `make_conn` would hand out the structure at `a`, which is in use. -/
def handsOutOpen (H : Host σ) (a : Addr) (s : State σ) : Bool :=
  (makeConn H s 9 (hearing .eof)).1 == some a && s.conns.contains a && !(s.conn a).free

/-- The structure of the second client is next to be handed out. -/
theorem statistics_disagree :
    ∃ s, start (Host.lp64 Allocator.recycling) ⟨0, 2⟩ (emptyHeap ∅) 3
        (hearing .eof) = .ok (some s) ∧
      ∃ s', run (step (Host.lp64 Allocator.recycling)) s craftedRun = .ok s' ∧
        ¬ Agreeing (Host.lp64 Allocator.recycling) s' := by
  refine ⟨_, rfl, Exists.imp (fun s' hs' => ⟨hs'.1, fun h => ?_⟩)
    (exists_of_returns (p := handsOutOpen (Host.lp64 Allocator.recycling) 8) ?_)⟩
  · have htest := hs'.2
    simp only [handsOutOpen, Bool.and_eq_true, beq_iff_eq, List.contains_iff_mem,
      Bool.not_eq_true'] at htest
    obtain ⟨⟨hmake, hmem⟩, hfree⟩ := htest
    have hopen := h.handsOut 9 (hearing .eof) 8 _ (Prod.ext hmake rfl) hmem
    rw [hfree] at hopen
    cases hopen
  · decide +kernel

end Runs

end Lightcache.Server
